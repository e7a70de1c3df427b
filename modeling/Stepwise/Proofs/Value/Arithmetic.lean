import Stepwise.Engine.Operators

/-!
# Arithmetic on integers

An operator on integers gives the exact result if there is one that fits a
word of 64 bits. A divisor of zero has no result, and a result that does not
fit is refused. One remainder is refused that would fit: that of the least
integer by minus one, because the quotient that it belongs to does not fit.
-/

namespace Stepwise

namespace Word

/-- The integers that are signed words of 64 bits. -/
def Fits (n : Int) : Prop := -9223372036854775808 ≤ n ∧ n ≤ 9223372036854775807
deriving Decidable

theorem fits_toInt (m : Int64) : Fits m.toInt :=
  ⟨m.le_toInt, m.toInt_le⟩

/-- An integer that fits is the word it is taken for. -/
theorem signed?_of_fits {n : Int} (h : Fits n) :
    signed? n = some (Int64.ofInt n) ∧ (Int64.ofInt n).toInt = n := by
  obtain ⟨hlow, hhigh⟩ := h
  have hin : (-(half : Int) ≤ n && n < half) = true := by
    rw [Bool.and_eq_true, decide_eq_true_eq, decide_eq_true_eq]
    show -(9223372036854775808 : Int) ≤ n ∧ n < (9223372036854775808 : Int)
    omega
  refine ⟨by rw [signed?, if_pos hin], Int64.toInt_ofInt_of_le ?_ ?_⟩ <;> omega

/-- No other integer is taken for a word. -/
theorem signed?_of_not_fits {n : Int} (h : ¬ Fits n) : signed? n = none := by
  have hout : ¬ (-(half : Int) ≤ n && n < half) = true := by
    rw [Bool.and_eq_true, decide_eq_true_eq, decide_eq_true_eq]
    rintro ⟨hlow, hhigh⟩
    change -(9223372036854775808 : Int) ≤ n at hlow
    change n < (9223372036854775808 : Int) at hhigh
    exact h ⟨hlow, by omega⟩
  rw [signed?, if_neg hout]

end Word

namespace Operators

/-- A quotient that is rounded toward zero, and the remainder that belongs to it. -/
structure Division (a b q r : Int) : Prop where
  /-- Nothing is lost. -/
  whole : a = b * q + r
  /-- The remainder is smaller than the divisor. -/
  small : r.natAbs < b.natAbs
  /-- The remainder has the sign of the dividend, if it is not zero. -/
  sign : (0 ≤ a → 0 ≤ r) ∧ (a ≤ 0 → r ≤ 0)

/-- The exact results of the arithmetic operators. -/
def IsResult : BinaryOp → Int → Int → Int → Prop
  | .add, a, b, n => n = a + b
  | .sub, a, b, n => n = a - b
  | .mul, a, b, n => n = a * b
  | .div, a, b, n => ∃ r, Division a b n r
  | .mod, a, b, n => ∃ q, Division a b q n
  | _, _, _, _ => False

/-- The answer of an operation to integers, given its exact results. Where
`undefined` holds, it has to refuse a division by zero; where `barred` holds,
it is out of range whatever the exact result is. -/
structure Answers (exact : Int → Prop) (undefined barred : Prop) (answer : Except Fault Val) :
    Prop where
  /-- An exact result that fits is given. -/
  value : ¬ barred → ∀ n, exact n → Word.Fits n →
    ∃ m : Int64, m.toInt = n ∧ answer = .ok (.int m)
  /-- Nothing else is given. -/
  right : ∀ v, answer = .ok v → ∃ m : Int64, v = .int m ∧ exact m.toInt
  /-- There is a division by zero exactly where the result is undefined. -/
  zero : (∃ f, answer = .error f ∧ f.kind = .divideByZero) ↔ undefined
  /-- The answer is out of range exactly where the exact result is, or where it is barred. -/
  range : (∃ f, answer = .error f ∧ f.kind = .outOfRange) ↔
    barred ∨ ∃ n, exact n ∧ ¬ Word.Fits n
  /-- There are no other failures. -/
  only : ∀ f, answer = .error f → f.kind = .divideByZero ∨ f.kind = .outOfRange

section Division

variable {a b q r : Int}

/-- Zero divides nothing. -/
theorem Division.ne_zero (h : Division a b q r) : b ≠ 0 := by
  have := h.small
  omega

/-- There is a quotient by any other divisor. -/
theorem division_tdiv (a : Int) (hb : b ≠ 0) : Division a b (a.tdiv b) (a.tmod b) where
  whole := (Int.mul_tdiv_add_tmod a b).symm
  small := by
    rw [Int.natAbs_tmod]
    exact Nat.mod_lt _ (Int.natAbs_pos.mpr hb)
  sign := by
    refine ⟨Int.tmod_nonneg b, fun ha => ?_⟩
    exact ((Int.tdiv_tmod_unique' ha hb).mp ⟨rfl, rfl⟩).2.2

/-- There is only one. -/
theorem Division.eq_tdiv (h : Division a b q r) : q = a.tdiv b ∧ r = a.tmod b := by
  have hsmall := h.small
  have hwhole : r + b * q = a := by rw [h.whole, Int.add_comm]
  rcases Int.le_total 0 a with ha | ha
  · have hr := h.sign.1 ha
    obtain ⟨hq, hr⟩ := (Int.tdiv_tmod_unique ha h.ne_zero).mpr ⟨hwhole, hr, by omega⟩
    exact ⟨hq.symm, hr.symm⟩
  · have hr := h.sign.2 ha
    obtain ⟨hq, hr⟩ := (Int.tdiv_tmod_unique' ha h.ne_zero).mpr ⟨hwhole, by omega, hr⟩
    exact ⟨hq.symm, hr.symm⟩

theorem isResult_div (hb : b ≠ 0) (n : Int) : IsResult .div a b n ↔ n = a.tdiv b := by
  refine ⟨fun ⟨_, h⟩ => h.eq_tdiv.1, ?_⟩
  rintro rfl
  exact ⟨_, division_tdiv a hb⟩

theorem isResult_mod (hb : b ≠ 0) (n : Int) : IsResult .mod a b n ↔ n = a.tmod b := by
  refine ⟨fun ⟨_, h⟩ => h.eq_tdiv.2, ?_⟩
  rintro rfl
  exact ⟨_, division_tdiv a hb⟩

/-- A quotient is out of range only for the least dividend and minus one. -/
theorem fits_tdiv_iff (a : Int64) {b : Int64} (hb : b ≠ 0) :
    Word.Fits (a.toInt.tdiv b.toInt) ↔ ¬ (a = Int64.minValue ∧ b = -1) := by
  constructor
  · rintro hfits ⟨rfl, rfl⟩
    exact absurd hfits.2 (by decide)
  · intro hne
    have ha := Word.fits_toInt a
    have hzero : b.toInt ≠ 0 := fun h => hb (Int64.toInt_inj.mp h)
    have hquot : (a.toInt.tdiv b.toInt).natAbs = a.toInt.natAbs / b.toInt.natAbs :=
      Int.natAbs_tdiv _ _
    unfold Word.Fits at ha ⊢
    by_cases hunit : b.toInt.natAbs = 1
    · rcases Int.natAbs_eq_iff.mp hunit with hone | hminus
      · rw [hone, Int.natCast_one, Int.tdiv_one]
        exact ha
      · have hmin : a.toInt ≠ -9223372036854775808 := fun h =>
          hne ⟨Int64.toInt_inj.mp h, Int64.toInt_inj.mp hminus⟩
        rw [hminus, Int.natCast_one, Int.tdiv_neg, Int.tdiv_one]
        omega
    · -- A divisor of at least two halves the dividend, so that even the least one fits.
      have hhalf : a.toInt.natAbs / b.toInt.natAbs ≤ a.toInt.natAbs / 2 :=
        Nat.div_le_div_left (by omega) (by omega)
      omega

end Division

section Answers

variable {exact : Int → Prop} {undefined barred : Prop} {n : Int} {f : Fault}

/-- An operation that gives its single exact result if that fits. -/
theorem answers_signed (h : ∀ m, exact m ↔ m = n) (hf : f.kind = .outOfRange)
    (hundefined : ¬ undefined) (hbarred : ¬ barred) :
    Answers exact undefined barred
      (match Word.signed? n with | some m => .ok (.int m) | none => .error f) := by
  by_cases hfits : Word.Fits n
  · obtain ⟨hsigned, hword⟩ := Word.signed?_of_fits hfits
    rw [hsigned]
    refine ⟨fun _ m hm _ => ⟨_, hword.trans ((h m).mp hm).symm, rfl⟩, ?_, ?_, ?_, ?_⟩
    · rintro _ ⟨⟩
      exact ⟨_, rfl, (h _).mpr hword⟩
    · exact iff_of_false (fun ⟨_, hanswer, _⟩ => nomatch hanswer) hundefined
    · refine iff_of_false (fun ⟨_, hanswer, _⟩ => nomatch hanswer) ?_
      rintro (hbar | ⟨m, hm, hout⟩)
      · exact hbarred hbar
      · exact hout ((h m).mp hm ▸ hfits)
    · intro _ hanswer
      cases hanswer
  · rw [Word.signed?_of_not_fits hfits]
    refine ⟨fun _ m hm hin => absurd ((h m).mp hm ▸ hin) hfits, ?_, ?_, ?_, ?_⟩
    · intro _ hanswer
      cases hanswer
    · refine iff_of_false ?_ hundefined
      rintro ⟨_, ⟨⟩, hkind⟩
      rw [hf] at hkind
      cases hkind
    · exact iff_of_true ⟨_, rfl, hf⟩ (.inr ⟨n, (h n).mpr rfl, hfits⟩)
    · rintro _ ⟨⟩
      exact .inr hf

/-- An operation without a result that refuses a division by zero. -/
theorem answers_zero (h : ∀ m, ¬ exact m) (hundefined : undefined) (hbarred : ¬ barred) :
    Answers exact undefined barred (.error .divideByZero) where
  value := fun _ m hm => absurd hm (h m)
  right := by
    intro _ hanswer
    cases hanswer
  zero := iff_of_true ⟨_, rfl, rfl⟩ hundefined
  range := by
    refine iff_of_false ?_ ?_
    · rintro ⟨_, ⟨⟩, hkind⟩
      cases hkind
    · rintro (hbar | ⟨m, hm, -⟩)
      · exact hbarred hbar
      · exact h m hm
  only := by
    rintro _ ⟨⟩
    exact .inl rfl

/-- An operation that is barred and says that it is out of range. -/
theorem answers_barred (hf : f.kind = .outOfRange) (hundefined : ¬ undefined)
    (hbarred : barred) : Answers exact undefined barred (.error f) where
  value := fun h => absurd hbarred h
  right := by
    intro _ hanswer
    cases hanswer
  zero := by
    refine iff_of_false ?_ hundefined
    rintro ⟨_, ⟨⟩, hkind⟩
    rw [hf] at hkind
    cases hkind
  range := iff_of_true ⟨_, rfl, hf⟩ (.inl hbarred)
  only := by
    rintro _ ⟨⟩
    exact .inr hf

end Answers

/-- The operators whose operands are numbers. -/
def IsArithmetic (op : BinaryOp) : Prop :=
  op = .add ∨ op = .sub ∨ op = .mul ∨ op = .div ∨ op = .mod

/-- Two integers go to the arithmetic on integers. -/
theorem binary_int {op : BinaryOp} (hop : IsArithmetic op) (h : Heap) (a b : Int64) :
    binary h op (.int a) (.int b) = intArithmetic op a b := by
  rcases hop with rfl | rfl | rfl | rfl | rfl <;> rfl

section

variable {a b : Int64}

/-- There is no division by zero. -/
theorem intArithmetic_zero {op : BinaryOp} (hop : op = .div ∨ op = .mod) (a : Int64) :
    Answers (IsResult op a.toInt 0) ((op = .div ∨ op = .mod) ∧ (0 : Int64) = 0)
      (op = .mod ∧ a = Int64.minValue ∧ (0 : Int64) = -1) (intArithmetic op a 0) := by
  have hbarred : ¬ (op = .mod ∧ a = Int64.minValue ∧ (0 : Int64) = -1) :=
    fun h => absurd h.2.2 (by decide)
  rcases hop with rfl | rfl
  · exact answers_zero (fun _ ⟨_, h⟩ => h.ne_zero rfl) ⟨.inl rfl, rfl⟩ hbarred
  · exact answers_zero (fun _ ⟨_, h⟩ => h.ne_zero rfl) ⟨.inr rfl, rfl⟩ hbarred

/-- A quotient is given if it fits. -/
theorem intArithmetic_div (hb : b ≠ 0) (a : Int64) :
    Answers (IsResult .div a.toInt b.toInt) ((BinaryOp.div = .div ∨ BinaryOp.div = .mod) ∧ b = 0)
      (BinaryOp.div = .mod ∧ a = Int64.minValue ∧ b = -1) (intArithmetic .div a b) := by
  have hzero : b.toInt ≠ 0 := fun h => hb (Int64.toInt_inj.mp h)
  rw [intArithmetic, if_neg (by simpa [divides] using hb), integer?]
  exact answers_signed (isResult_div hzero) rfl (fun h => hb h.2) (fun h => nomatch h.1)

/-- A remainder is given if the quotient fits. -/
theorem intArithmetic_mod (hb : b ≠ 0) (a : Int64) :
    Answers (IsResult .mod a.toInt b.toInt) ((BinaryOp.mod = .div ∨ BinaryOp.mod = .mod) ∧ b = 0)
      (BinaryOp.mod = .mod ∧ a = Int64.minValue ∧ b = -1) (intArithmetic .mod a b) := by
  have hzero : b.toInt ≠ 0 := fun h => hb (Int64.toInt_inj.mp h)
  rw [intArithmetic, if_neg (by simpa [divides] using hb), integer?]
  by_cases hleast : a = Int64.minValue ∧ b = -1
  · have hout : ¬ Word.Fits (a.toInt.tdiv b.toInt) := fun h => (fits_tdiv_iff a hb).mp h hleast
    rw [Word.signed?_of_not_fits hout, Option.bind_none]
    exact answers_barred rfl (fun h => hb h.2) ⟨rfl, hleast⟩
  · rw [(Word.signed?_of_fits ((fits_tdiv_iff a hb).mpr hleast)).1, Option.bind_some]
    exact answers_signed (isResult_mod hzero) rfl (fun h => hb h.2) (fun h => hleast h.2)

/-- The arithmetic on integers gives the exact result, except for one remainder. -/
theorem intArithmetic_answers {op : BinaryOp} (hop : IsArithmetic op) (a b : Int64) :
    Answers (IsResult op a.toInt b.toInt) ((op = .div ∨ op = .mod) ∧ b = 0)
      (op = .mod ∧ a = Int64.minValue ∧ b = -1) (intArithmetic op a b) := by
  rcases hop with rfl | rfl | rfl | hdivides
  · exact answers_signed (fun _ => Iff.rfl) rfl (by simp) (by simp)
  · exact answers_signed (fun _ => Iff.rfl) rfl (by simp) (by simp)
  · exact answers_signed (fun _ => Iff.rfl) rfl (by simp) (by simp)
  · by_cases hb : b = 0
    · subst hb
      exact intArithmetic_zero hdivides a
    · rcases hdivides with rfl | rfl
      · exact intArithmetic_div hb a
      · exact intArithmetic_mod hb a

end

/-- What the operations on integers do with two words. -/
structure IntegersExact (a b : Int64) : Prop where
  /-- The binary operators, on any heap. -/
  binary : ∀ h op, IsArithmetic op →
    Answers (IsResult op a.toInt b.toInt) ((op = .div ∨ op = .mod) ∧ b = 0)
      (op = .mod ∧ a = Int64.minValue ∧ b = -1) (Operators.binary h op (.int a) (.int b))
  /-- The sign. -/
  negative : Answers (· = -a.toInt) False False (unary .neg (.int a))
  /-- The absolute value, from any host. -/
  absolute : ∀ (host : Host) h, Answers (· = (a.toInt.natAbs : Int)) False False
    ((host.invoke h (.type "Math") "Abs" [.int a]).map (·.value))

/-- Integer arithmetic gives the exact result or refuses to give one. -/
theorem integers_exact_or_refused (a b : Int64) : IntegersExact a b where
  binary := fun h op hop => by
    rw [binary_int hop]
    exact intArithmetic_answers hop a b
  negative := answers_signed (fun _ => Iff.rfl) rfl not_false not_false
  absolute := fun host h => by
    have hmax : (a.toInt.natAbs : Int) = max a.toInt (-a.toInt) := by omega
    have habs : (host.invoke h (.type "Math") "Abs" [.int a]).map (·.value) =
        Host.absolute (.int a) := by
      have hop : Host.Op.invoke (.type "Math") "Abs" [.int a] =
          liftM (Host.absolute (.int a)) := rfl
      rw [Host.invoke, hop]
      cases Host.absolute (.int a) <;> rfl
    rw [habs, hmax]
    exact answers_signed (fun _ => Iff.rfl) rfl not_false not_false

/-- The remainder of the least integer by minus one is zero, and is refused. -/
theorem least_modulo_refused :
    IsResult .mod Int64.minValue.toInt (-1 : Int64).toInt 0 ∧ Word.Fits 0 ∧
      ∃ f, binary {} .mod (.int Int64.minValue) (.int (-1)) = .error f ∧ f.kind = .outOfRange := by
  have hdivision : Division (-9223372036854775808) (-1) 9223372036854775808 0 :=
    ⟨by omega, by omega, by omega⟩
  exact ⟨⟨_, hdivision⟩, by decide, _, rfl, rfl⟩

end Operators

end Stepwise
