/-!
# Tables of code points

A character class beyond ASCII is data of a standard: a list of closed ranges of code points.
-/

namespace ServiceKeys.Text

/-- Whether a code point lies in one of the closed ranges of a table. -/
def inRanges (table : List (Nat × Nat)) (n : Nat) : Bool :=
  table.any fun r => r.1 ≤ n && n ≤ r.2

/-- A code point is in a table exactly when some range of the table holds it. -/
theorem inRanges_iff {table : List (Nat × Nat)} {n : Nat} :
    inRanges table n = true ↔ ∃ r ∈ table, r.1 ≤ n ∧ n ≤ r.2 := by
  simp [inRanges]

end ServiceKeys.Text
