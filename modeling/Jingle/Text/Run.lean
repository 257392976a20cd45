/-!
# Runs of code points

A set of code points is kept as its runs, each given by its first and its last member, in
ascending order.
-/

namespace Jingle.Text

/-- Whether a number lies in one of the runs. Only the first run that does not end before the
number can hold it. -/
def inRuns : List (Nat × Nat) → Nat → Bool
  | [], _ => false
  | (first, last) :: runs, n => if n ≤ last then decide (first ≤ n) else inRuns runs n

end Jingle.Text
