/-!
# Ranges of code points

A property of characters is kept as a list of closed ranges of code points, ascending and apart.
`Ranges.contains` looks a code point up and stops at the first range beyond it.
-/

namespace SafeQuery.Text

/-- Closed ranges of code points. -/
abbrev Ranges := List (Nat × Nat)

/-- Look up a code point, stopping at the first range that begins beyond it. -/
def Ranges.contains : Ranges → Nat → Bool
  | [],             _ => false
  | (lo, hi) :: rs, n => if n < lo then false else n ≤ hi || Ranges.contains rs n

end SafeQuery.Text
