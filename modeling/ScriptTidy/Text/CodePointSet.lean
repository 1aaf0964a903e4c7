/-!
# Sets of code points

A set of code points is a list of closed ranges in rising order.
-/

namespace ScriptTidy

/-- Closed ranges of code points, lowest first. -/
abbrev CodePointSet := List (Nat × Nat)

namespace CodePointSet

/-- Whether a range holds the code point. The search ends at the first range that lies
beyond it. -/
def has : CodePointSet → Nat → Bool
  | [], _ => false
  | (lo, hi) :: ranges, n => if n < lo then false else n ≤ hi || has ranges n

end CodePointSet

end ScriptTidy
