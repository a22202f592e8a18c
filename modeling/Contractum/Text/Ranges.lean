/-!
# Ranges of code points

A property of characters is given by a table of closed ranges of code points.
Membership is decided by the table alone, so two tables with the same ranges
describe the same property.
-/

namespace Contractum.Text

/-- A character is in a table when some range of it holds the character's code point. -/
def inRanges (table : Array (Nat × Nat)) (c : Char) : Bool :=
  table.any fun range => range.1 ≤ c.toNat && c.toNat ≤ range.2

theorem inRanges_iff {table : Array (Nat × Nat)} {c : Char} :
    inRanges table c = true ↔ ∃ range ∈ table, range.1 ≤ c.toNat ∧ c.toNat ≤ range.2 := by
  simp only [inRanges, ← Array.any_toList, List.any_eq_true, Array.mem_toList_iff, Bool.and_eq_true,
    decide_eq_true_eq]

end Contractum.Text
