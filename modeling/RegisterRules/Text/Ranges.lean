/-!
# Sets of characters by ranges

A property of characters is given by a list of ranges of code points in ascending order. Membership
stops at the first range that lies beyond the character, so that letters near the start of the list
are found quickly.
-/

namespace RegisterRules

namespace Text

/-- Inclusive ranges of code points, ascending. -/
abbrev Ranges := List (Nat × Nat)

/-- Whether a code point lies in one of the ranges, given in ascending order. -/
def Ranges.covers : Ranges → Nat → Bool
  | [], _ => false
  | (first, last) :: rest, point =>
    if point < first then false
    else if point ≤ last then true
    else Ranges.covers rest point

end Text

end RegisterRules
