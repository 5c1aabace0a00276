/-!
# Words

Counters, sizes and stack words have 64 bits. They are natural numbers here, so that laws about them
are laws of arithmetic; this module says where a word ends.
-/

namespace ThreadCore.Word

/-- The number of values of a word. -/
def limit : Nat := UInt64.size

/-- The greatest value of a word. -/
def greatest : Nat := limit - 1

/-- The successor of a word, if it is a word. -/
def next? (n : Nat) : Option Nat :=
  if n < greatest then some (n + 1) else none

/-- The sum of two words, held at the greatest word. -/
def addSaturating (a b : Nat) : Nat := min (a + b) greatest

/-- The successor of a word, where the greatest one is followed by zero. -/
def nextWrapping (n : Nat) : Nat := (n + 1) % limit

theorem next?_eq_some_iff {n m : Nat} : next? n = some m ↔ n < greatest ∧ m = n + 1 := by
  simp [next?, eq_comm]

theorem next?_eq_none_iff {n : Nat} : next? n = none ↔ greatest ≤ n := by
  simp [next?]

end ThreadCore.Word
