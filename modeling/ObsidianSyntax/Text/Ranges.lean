/-!
# Classes of characters

A class of characters that a standard lists by number is kept as the ranges it is listed by.
-/

namespace ObsidianSyntax

/-- Ranges of character numbers, both ends included. -/
abbrev CharRanges := List (Nat × Nat)

namespace CharRanges

/-- Whether the number of `c` lies in one of the ranges. -/
def contains (ranges : CharRanges) (c : Char) : Bool :=
  ranges.any fun (first, last) => first ≤ c.toNat && c.toNat ≤ last

end CharRanges

end ObsidianSyntax
