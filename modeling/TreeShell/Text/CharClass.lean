/-!
# Character classes as ranges

A class of characters is a list of ranges of code points, both ends included.
The order of the ranges does not matter, and neither does an overlap.
-/

namespace TreeShell.Text

/-- The class that a list of ranges of code points describes. -/
def inRanges (ranges : List (Nat × Nat)) (c : Char) : Bool :=
  ranges.any fun r => r.1 ≤ c.toNat && c.toNat ≤ r.2

@[simp] theorem inRanges_nil (c : Char) : inRanges [] c = false := rfl

@[simp] theorem inRanges_cons (r : Nat × Nat) (ranges : List (Nat × Nat)) (c : Char) :
    inRanges (r :: ranges) c =
      ((decide (r.1 ≤ c.toNat) && decide (c.toNat ≤ r.2)) || inRanges ranges c) := rfl

theorem inRanges_iff {ranges : List (Nat × Nat)} {c : Char} :
    inRanges ranges c = true ↔ ∃ r ∈ ranges, r.1 ≤ c.toNat ∧ c.toNat ≤ r.2 := by
  simp [inRanges]

end TreeShell.Text
