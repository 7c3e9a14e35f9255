/-!
# Sorted ranges of numbers

A character class is given as its code points, in ranges that ascend and do not touch.
-/

namespace BuildDeps

/-- Inclusive ranges of numbers, in ascending order. -/
abbrev Ranges := List (Nat × Nat)

/-- Whether a number lies in one of the ranges. The search ends at the first range that
begins above the number, since all later ones do so too. -/
def Ranges.has : Ranges → Nat → Bool
  | [], _ => false
  | (lo, hi) :: r, n => if n < lo then false else if n ≤ hi then true else Ranges.has r n

end BuildDeps
