import Mathlib.Data.List.Shortlex
import Mathlib.Order.Interval.Set.Nat
import Stepwise.Proofs.Lowering.OwnJumps

/-!
# The order of labels

Generated labels come in shortlex order: a shorter word before a longer one,
and alphabetically among words of one length. A word is its number written in
base 26 with digits from one to 26, so the step from `Z` to `AA` is an ordinary
carry. Every word over the capital letters has its turn, and only one.
-/

namespace Stepwise

namespace Label

/-- A word of capital letters that is not empty. -/
def Capital (label : String) : Prop := label ≠ "" ∧ ∀ c ∈ label.toList, 'A' ≤ c ∧ c ≤ 'Z'

/-- Shorter words come first, and words of one length alphabetically. -/
def Precedes (a b : String) : Prop := List.Shortlex (· < ·) a.toList b.toList

/-- These are the words that can be generated. -/
theorem isGenerated_iff {label : String} : isGenerated label = true ↔ Capital label := by
  simp [isGenerated, Capital, List.all_eq_true]

section Words

/-- A greater digit has a later letter. -/
theorem letter_lt {a b : Nat} (hb : b < 26) (h : a < b) : letter a < letter b := by
  have hletters : ∀ b < 26, ∀ a < b, letter a < letter b := by decide
  exact hletters b hb a h

/-- Every capital letter is the letter of a digit. -/
theorem exists_letter {c : Char} (h : ('A' ≤ c && c ≤ 'Z') = true) : ∃ d < 26, letter d = c := by
  obtain ⟨hA, hZ⟩ := Bool.and_eq_true_iff.mp h
  have hlow : 65 ≤ c.toNat := Char.le_def.mp (of_decide_eq_true hA)
  have hhigh : c.toNat ≤ 90 := Char.le_def.mp (of_decide_eq_true hZ)
  refine ⟨c.toNat - 65, by omega, ?_⟩
  have hnumber : 'A'.toNat + (c.toNat - 65) = c.toNat := by
    show 65 + (c.toNat - 65) = c.toNat
    omega
  rw [letter, hnumber, Char.ofNat_toNat]

/-- The word of a number with a given last digit. -/
theorem word_succ (k : Nat) {d : Nat} (hd : d < 26) :
    word (26 * k + d + 1) = word k ++ [letter d] := by
  have hquot : (26 * k + d) / 26 = k := by omega
  have hrem : (26 * k + d) % 26 = d := by omega
  rw [word, if_neg (Nat.succ_ne_zero _), Nat.add_sub_cancel, hquot, hrem]

/-- A number other than zero is a multiple of 26, a digit and one. -/
theorem exists_digit {n : Nat} (hn : n ≠ 0) : ∃ k d, d < 26 ∧ k < n ∧ n = 26 * k + d + 1 :=
  ⟨(n - 1) / 26, (n - 1) % 26, by omega, by omega, by omega⟩

/-- What stands behind words of one length does not matter for their order. -/
theorem lex_append {r : Char → Char → Prop} {s t : List Char} (h : List.Lex r s t)
    (hlength : s.length = t.length) (a b : List Char) : List.Lex r (s ++ a) (t ++ b) := by
  induction h with
  | nil => cases hlength
  | cons _ ih => exact .cons (ih (Nat.succ.inj hlength))
  | rel hr => exact .rel hr

/-- A word that comes first still does so when each word gets one more letter. -/
theorem shortlex_concat {s t : List Char} (h : List.Shortlex (· < ·) s t) (c d : Char) :
    List.Shortlex (· < ·) (s ++ [c]) (t ++ [d]) := by
  rcases List.shortlex_def.mp h with hshort | ⟨hlength, hlex⟩
  · exact .of_length_lt (by simpa using hshort)
  · exact .of_lex (by simpa using hlength) (lex_append hlex hlength [c] [d])

/-- Words are in the order of their numbers. -/
theorem word_shortlex {m n : Nat} (h : m < n) : List.Shortlex (· < ·) (word m) (word n) := by
  induction n using Nat.strongRecOn generalizing m with
  | ind n ih =>
    obtain ⟨k, d, hd, hk, rfl⟩ := exists_digit (Nat.ne_zero_of_lt h)
    rw [word_succ k hd]
    by_cases hm : m = 0
    · subst hm
      rw [word, if_pos rfl]
      exact .of_length_lt (by simp)
    · obtain ⟨j, e, he, -, rfl⟩ := exists_digit hm
      rw [word_succ j he]
      have hjk : j ≤ k := by omega
      rcases Nat.lt_or_eq_of_le hjk with hlt | rfl
      · exact shortlex_concat (ih k hk hlt) _ _
      · -- the words agree but for their last letters
        have hed : e < d := by omega
        exact ((List.shortlex_singleton_iff _ _).mpr (letter_lt hd hed)).append_left _

/-- Every word over the capital letters has a number. -/
theorem exists_word {cs : List Char} (h : ∀ c ∈ cs, ('A' ≤ c && c ≤ 'Z') = true) :
    ∃ n, word n = cs := by
  induction cs using List.reverseRecOn with
  | nil => exact ⟨0, by rw [word, if_pos rfl]⟩
  | append_singleton cs c ih =>
    obtain ⟨hinit, hlast⟩ := List.forall_mem_append.mp h
    obtain ⟨k, rfl⟩ := ih hinit
    obtain ⟨d, hd, rfl⟩ := exists_letter (hlast c (List.mem_singleton_self c))
    exact ⟨_, word_succ k hd⟩

end Words

section Names

variable {m n : Nat}

/-- Labels are in the order of their numbers. -/
theorem name_precedes (h : m < n) : Precedes (name m) (name n) := by
  rw [Precedes, name, name, String.toList_ofList, String.toList_ofList]
  exact word_shortlex (Nat.succ_lt_succ h)

theorem Precedes.not_precedes {a b : String} (h : Precedes a b) : ¬ Precedes b a :=
  List.Shortlex.asymm.asymm _ _ h

theorem precedes_name_iff : Precedes (name m) (name n) ↔ m < n := by
  refine ⟨fun h => ?_, name_precedes⟩
  rcases Nat.lt_trichotomy m n with hlt | rfl | hgt
  · exact hlt
  · exact absurd h h.not_precedes
  · exact absurd h (name_precedes hgt).not_precedes

theorem capital_name (n : Nat) : Capital (name n) := isGenerated_iff.mp (isGenerated_name n)

/-- Every word that can be a label is one. -/
theorem exists_name {label : String} (h : Capital label) : ∃ n, name n = label := by
  obtain ⟨n, hn⟩ : ∃ n, word n = label.toList := by
    refine exists_word fun c hc => ?_
    simpa using h.2 c hc
  have hpos : n ≠ 0 := by
    rintro rfl
    rw [word, if_pos rfl] at hn
    exact h.1 (String.toList_eq_nil_iff.mp hn.symm)
  obtain ⟨k, rfl⟩ := Nat.exists_eq_succ_of_ne_zero hpos
  exact ⟨k, by rw [name, hn, String.ofList_toList]⟩

/-- The labels before a label are those with a smaller number. -/
theorem labels_before (n : Nat) :
    {label | Capital label ∧ Precedes label (name n)} = name '' Set.Iio n := by
  ext label
  constructor
  · rintro ⟨hlabel, hbefore⟩
    obtain ⟨m, rfl⟩ := exists_name hlabel
    exact ⟨m, precedes_name_iff.mp hbefore, rfl⟩
  · rintro ⟨m, hm, rfl⟩
    exact ⟨capital_name m, name_precedes hm⟩

/-- As many labels come before a label as its number says. -/
theorem encard_labels_before (n : Nat) :
    {label | Capital label ∧ Precedes label (name n)}.encard = n := by
  rw [labels_before, Function.Injective.encard_image fun _ _ h => name_injective h,
    ← (Set.finite_Iio n).cast_ncard_eq, Set.ncard_Iio_nat]

end Names

end Label

namespace Lowering

/-- The state after so many labels have been drawn. -/
def Progress.afterLabels (s : Progress) (n : Nat) : Progress := (fun s => (nextLabel s).2)^[n] s

/-- The label that is drawn after so many others. -/
def Progress.drawn (s : Progress) (n : Nat) : String := (nextLabel (s.afterLabels n)).1

/-- Every draw uses up one number, and nothing else happens. -/
theorem Progress.afterLabels_eq (s : Progress) (n : Nat) :
    s.afterLabels n = { s with labels := s.labels + n } := by
  induction n with
  | zero => rfl
  | succ n ih =>
    rw [afterLabels, Function.iterate_succ_apply']
    change (nextLabel (s.afterLabels n)).2 = _
    rw [ih]
    rfl

/-- The label drawn is the one with the next number. -/
theorem Progress.drawn_eq (s : Progress) (n : Nat) : s.drawn n = Label.name (s.labels + n) := by
  rw [drawn, afterLabels_eq]
  rfl

/-- The labels of a run of lowering, as they are drawn one after the other. -/
structure EnumeratesLabels (s : Progress) : Prop where
  /-- Each is a word of capital letters. -/
  capital : ∀ n, Label.Capital (s.drawn n)
  /-- As many such words come before it in shortlex order as labels were drawn before. -/
  place : ∀ n, {label | Label.Capital label ∧ Label.Precedes label (s.drawn n)}.encard = n
  /-- The order of drawing is the shortlex order. -/
  order : ∀ m n, Label.Precedes (s.drawn m) (s.drawn n) ↔ m < n
  /-- No label is drawn again. -/
  once : ∀ m n, s.drawn m = s.drawn n → m = n
  /-- No word is skipped. -/
  every : ∀ label, Label.Capital label → ∃ n, s.drawn n = label

/-- A run of lowering draws all words of capital letters in shortlex order. -/
theorem labels_enumerated (s : Progress) : EnumeratesLabels { s with labels := 0 } := by
  have hdrawn : ∀ n, Progress.drawn { s with labels := 0 } n = Label.name n := by
    intro n
    rw [Progress.drawn_eq, Nat.zero_add]
  refine ⟨fun n => ?_, fun n => ?_, fun m n => ?_, fun m n h => ?_, fun label hlabel => ?_⟩
  · rw [hdrawn]
    exact Label.capital_name n
  · rw [hdrawn]
    exact Label.encard_labels_before n
  · rw [hdrawn, hdrawn]
    exact Label.precedes_name_iff
  · rw [hdrawn, hdrawn] at h
    exact Label.name_injective h
  · obtain ⟨n, hn⟩ := Label.exists_name hlabel
    exact ⟨n, by rw [hdrawn, hn]⟩

end Lowering

end Stepwise
