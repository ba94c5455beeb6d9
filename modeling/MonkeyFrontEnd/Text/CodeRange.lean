/-!
Sets of characters given as ranges of code points.  The properties of characters that this
library needs (blank, unprintable) are tables of such ranges; this module only says when a
character lies in one.
-/

namespace MonkeyFrontEnd.Text

/-- All code points from `first` to `last`, both included. -/
structure CodeRange where
  first : Nat
  last : Nat
  deriving DecidableEq, Repr

def CodeRange.contains (r : CodeRange) (c : Char) : Bool := r.first ≤ c.toNat && c.toNat ≤ r.last

/-- The character lies in one of the ranges. -/
def inRanges (rs : List CodeRange) (c : Char) : Bool := rs.any (·.contains c)

theorem inRanges_eq_true_iff {rs : List CodeRange} {c : Char} :
    inRanges rs c = true ↔ ∃ r ∈ rs, r.first ≤ c.toNat ∧ c.toNat ≤ r.last := by
  simp [inRanges, CodeRange.contains]

end MonkeyFrontEnd.Text
