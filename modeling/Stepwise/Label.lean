/-!
# Generated labels

Labels are numbered words over the letters `A` to `Z`: all words of one
letter first, then all of two, and alphabetically within one length. The
number of a label therefore fixes it, and no label comes up twice.
-/

namespace Stepwise.Label

/-- The letter of a digit below 26. -/
def letter (d : Nat) : Char :=
  Char.ofNat ('A'.toNat + d)

/-- The word with the given number, counting from one; zero gives the empty
word. The last letter is the digit in base 26. -/
def word (n : Nat) : List Char :=
  if n = 0 then []
  else word ((n - 1) / 26) ++ [letter ((n - 1) % 26)]
termination_by n
decreasing_by omega

/-- The label with the given number, counting from zero. -/
def name (n : Nat) : String :=
  String.ofList (word (n + 1))

end Stepwise.Label
