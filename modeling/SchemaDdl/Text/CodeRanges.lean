/-!
# Sets of characters as ranges of code points

A property of characters is stored as inclusive ranges of code points in increasing order.
-/

namespace SchemaDdl.Text

abbrev CodeRanges := List (Nat × Nat)

def CodeRanges.has (ranges : CodeRanges) (n : Nat) : Bool :=
  ranges.any fun r => r.1 ≤ n && n ≤ r.2

theorem CodeRanges.has_iff (ranges : CodeRanges) (n : Nat) :
    ranges.has n = true ↔ ∃ r ∈ ranges, r.1 ≤ n ∧ n ≤ r.2 := by
  simp [CodeRanges.has]

end SchemaDdl.Text
