/-!
# Words of 64 bits

Integers are exact inside an operation and have to fit a signed word of 64
bits outside of it. Positions, sizes and numbers in files are unsigned words.
-/

namespace Stepwise.Word

/-- The number of unsigned words. -/
def count : Nat := 18446744073709551616

/-- The number of signed words that are not negative. -/
def half : Nat := 9223372036854775808

/-- The number of unsigned words of 32 bits. -/
def count32 : Nat := 4294967296

/-- The signed word of an integer, if it fits. -/
def signed? (n : Int) : Option Int64 :=
  if -(half : Int) ≤ n && n < half then some (Int64.ofInt n) else none

end Stepwise.Word
