import Runbook.Text

/-! # Runs of code points

A class of characters as the runs of its code points, in ascending order. -/

namespace Runbook.Text

/-- Whether a code point stands in one of the runs, each given by its first and its last code point. -/
def inRuns (n : Nat) : List (Nat × Nat) → Bool
  | [] => false
  | (first, last) :: rest => if n < first then false else if n ≤ last then true else inRuns n rest

end Runbook.Text
