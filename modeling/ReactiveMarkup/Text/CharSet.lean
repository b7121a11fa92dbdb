/-!
# Sets of characters

A set of characters is a list of closed ranges of code points, which is how character properties
are published.
-/
namespace ReactiveMarkup

/-- A set of characters, as closed ranges of code points. -/
structure CharSet where
  ranges : List (Nat × Nat)

namespace CharSet

/-- Whether a code point lies in one of the ranges. -/
def holds (s : CharSet) (n : Nat) : Bool := s.ranges.any fun r => r.1 ≤ n && n ≤ r.2

/-- Membership of a character. -/
def contains (s : CharSet) (c : Char) : Bool := s.holds c.toNat

end CharSet

end ReactiveMarkup
