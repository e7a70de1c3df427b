import Stepwise.Lowering.Program

/-!
# New labels and new names

Labels with different numbers are different words. A new name ends in a
dollar sign and its number, so that names with different numbers differ
whatever they recall, and no name without a dollar sign is ever taken.
-/

namespace Stepwise

namespace Label

/-- Different digits have different letters. -/
theorem letter_injective {a b : Nat} (ha : a < 26) (hb : b < 26) (h : letter a = letter b) :
    a = b := by
  have hval : ∀ d, d < 26 → (letter d).toNat = 65 + d := by decide
  have := congrArg Char.toNat h
  rw [hval a ha, hval b hb] at this
  omega

/-- Only number zero has the empty word. -/
theorem word_eq_nil {n : Nat} (h : word n = []) : n = 0 := by
  by_cases hn : n = 0
  · exact hn
  · rw [word, if_neg hn] at h
    exact absurd h (by simp)

/-- Different numbers have different words. -/
theorem word_injective {n m : Nat} (h : word n = word m) : n = m := by
  induction n using Nat.strongRecOn generalizing m with
  | ind n ih =>
    by_cases hn : n = 0
    · subst hn
      rw [word, if_pos rfl] at h
      exact (word_eq_nil h.symm).symm
    · by_cases hm : m = 0
      · subst hm
        rw [word.eq_def 0, if_pos rfl] at h
        exact word_eq_nil h
      · rw [word.eq_def n, word.eq_def m, if_neg hn, if_neg hm] at h
        obtain ⟨hinit, hlast⟩ := List.append_inj' h rfl
        have hquot := ih ((n - 1) / 26) (by omega) hinit
        have hrem := letter_injective (Nat.mod_lt _ (by decide)) (Nat.mod_lt _ (by decide))
          (List.head_eq_of_cons_eq hlast)
        have hn' := Nat.div_add_mod (n - 1) 26
        have hm' := Nat.div_add_mod (m - 1) 26
        rw [hquot, hrem] at hn'
        omega

/-- Different numbers have different labels. -/
theorem name_injective {n m : Nat} (h : name n = name m) : n = m := by
  have := word_injective (String.ofList_injective h)
  omega

end Label

namespace Lowering

/-- The new name with a number that recalls another name. -/
def fresh (recalled : String) (n : Nat) : String := recalled ++ "$" ++ toString n

/-- A name that can never be new. -/
def Plain (name : String) : Prop := '$' ∉ name.toList

instance (name : String) : Decidable (Plain name) := inferInstanceAs (Decidable (¬ _))

/-- The digits of a number contain no dollar sign. -/
theorem dollar_notMem_digits (n : Nat) : '$' ∉ Nat.toDigits 10 n := by
  intro h
  have := Nat.isDigit_of_mem_toDigits (by decide) (by decide) h
  exact absurd this (by decide)

/-- The letters of a new name. -/
theorem toList_fresh (recalled : String) (n : Nat) :
    (fresh recalled n).toList = recalled.toList ++ '$' :: Nat.toDigits 10 n := by
  have hrepr : (toString n).toList = Nat.toDigits 10 n := by
    show (Nat.repr n).toList = _
    simp [Nat.repr]
  simp only [fresh, String.toList_append, hrepr, List.append_assoc]
  rfl

/-- What stands behind the last dollar sign. -/
theorem after_dollar {a b d e : List Char} (hd : '$' ∉ d) (he : '$' ∉ e)
    (h : a ++ '$' :: d = b ++ '$' :: e) : d = e := by
  have key : ∀ (l r : List Char), '$' ∉ r →
      ((l ++ '$' :: r).reverse.takeWhile (· ≠ '$')).reverse = r := by
    intro l r hr
    have hall : ∀ c ∈ r.reverse, decide (c ≠ '$') = true := by
      intro c hc
      have hc' := List.mem_reverse.mp hc
      exact decide_eq_true fun e => hr (e ▸ hc')
    rw [List.reverse_append, List.reverse_cons, List.append_assoc,
      List.takeWhile_append_of_pos hall]
    simp
  rw [← key a d hd, h, key b e he]

/-- New names with different numbers differ. -/
theorem fresh_number {r r' : String} {n m : Nat} (h : fresh r n = fresh r' m) : n = m := by
  have hlist := congrArg String.toList h
  rw [toList_fresh, toList_fresh] at hlist
  have hdigits := after_dollar (dollar_notMem_digits n) (dollar_notMem_digits m) hlist
  have := congrArg (Nat.ofDigitChars 10 · 0) hdigits
  simpa [Nat.ofDigitChars_toDigits] using this

/-- A new name is not plain. -/
theorem not_plain_fresh (r : String) (n : Nat) : ¬ Plain (fresh r n) := by
  intro h
  apply h
  rw [toList_fresh]
  simp

/-- The new names with a number above one bound and up to another. -/
def Between (low high : Nat) (name : String) : Prop :=
  ∃ recalled n, low < n ∧ n ≤ high ∧ name = fresh recalled n

/-- The new names with a number up to a bound. -/
def UpTo (high : Nat) (name : String) : Prop := ∃ recalled n, n ≤ high ∧ name = fresh recalled n

/-- Older names are not among later ones. -/
theorem not_between_of_upTo {low high : Nat} {name : String} (h : UpTo low name) :
    ¬ Between low high name := by
  rintro ⟨r, n, hn, -, rfl⟩
  obtain ⟨r', m, hm, he⟩ := h
  have := fresh_number he
  omega

/-- Plain names are not among new ones. -/
theorem not_between_of_plain {low high : Nat} {name : String} (h : Plain name) :
    ¬ Between low high name := by
  rintro ⟨r, n, -, -, rfl⟩
  exact not_plain_fresh r n h

/-- Wider bounds. -/
theorem Between.mono {low low' high high' : Nat} {name : String} (h : Between low high name)
    (hl : low' ≤ low) (hh : high ≤ high') : Between low' high' name := by
  obtain ⟨r, n, h₁, h₂, rfl⟩ := h
  exact ⟨r, n, by omega, by omega, rfl⟩

/-- A wider bound. -/
theorem UpTo.mono {high high' : Nat} {name : String} (h : UpTo high name) (hh : high ≤ high') :
    UpTo high' name := by
  obtain ⟨r, n, h₁, rfl⟩ := h
  exact ⟨r, n, by omega, rfl⟩

end Lowering

end Stepwise
