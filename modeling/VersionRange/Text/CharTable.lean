/-!
# Tables of characters

A set of characters is given by the ascending ranges of its code points, both
ends included.
-/

namespace VersionRange

/-- Whether the code point of `c` lies in one of the ranges. -/
def inRanges (ranges : List (Nat × Nat)) (c : Char) : Bool :=
  ranges.any fun (first, last) => first ≤ c.toNat && c.toNat ≤ last

theorem inRanges_append (left right : List (Nat × Nat)) (c : Char) :
    inRanges (left ++ right) c = (inRanges left c || inRanges right c) := by
  simp [inRanges]

end VersionRange
