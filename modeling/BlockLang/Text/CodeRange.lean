/-!
# Sets of code points

A character class given by its data is an increasing list of closed ranges of code points.

## Main definitions

* `inRanges ranges n`: the code point lies in one of the ranges
-/

namespace BlockLang.Text

/-- The code point lies in one of the ranges, which are in increasing order: the search ends at the
first range that begins above it. -/
def inRanges : List (Nat × Nat) → Nat → Bool
  | [], _ => false
  | (first, last) :: ranges, n =>
    if n < first then false else n ≤ last || inRanges ranges n

theorem inRanges_cons (first last n : Nat) (ranges : List (Nat × Nat)) :
    inRanges ((first, last) :: ranges) n = (!decide (n < first) && (n ≤ last || inRanges ranges n)) := by
  by_cases h : n < first <;> simp [inRanges, h]

end BlockLang.Text
