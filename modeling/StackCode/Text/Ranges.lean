/-!
# Sets of characters

A set of characters is a list of closed ranges of code points.
-/

namespace StackCode

/-- A set of characters, as closed ranges of code points. -/
abbrev CharRanges := List (Nat × Nat)

/-- Whether a character lies in one of the ranges. -/
def CharRanges.contains (ranges : CharRanges) (c : Char) : Bool :=
  ranges.any fun r => r.1 ≤ c.toNat && c.toNat ≤ r.2

end StackCode
