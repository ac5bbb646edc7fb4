/-!
# Ranges of characters

Classes of characters given by ranges of their numbers.
-/
namespace JarRefit.Text

/-- The first and the last number of a range. -/
abbrev CodeRange := Nat × Nat

/-- Whether one of the ranges, which stand in ascending order, holds a number. -/
def holds : List CodeRange → Nat → Bool
  | [], _ => false
  | (low, high) :: rest, n => decide (low ≤ n) && (decide (n ≤ high) || holds rest n)

end JarRefit.Text
