/-!
# Classes of code points

A class of characters is given by its closed ranges of code points, in rising order.
-/

namespace InputDeck.Text

/-- Whether a character lies in one of the closed ranges of a class. -/
def inRanges (ranges : List (Nat × Nat)) (c : Char) : Bool :=
  ranges.any fun range => range.1 ≤ c.toNat && c.toNat ≤ range.2

/-- A character is in a class exactly when one of its ranges encloses the code point. -/
theorem inRanges_iff {ranges : List (Nat × Nat)} {c : Char} :
    inRanges ranges c = true ↔ ∃ range ∈ ranges, range.1 ≤ c.toNat ∧ c.toNat ≤ range.2 := by
  simp [inRanges]

end InputDeck.Text
