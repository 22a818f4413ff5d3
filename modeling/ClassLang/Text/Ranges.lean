/-!
Classes of characters that are given by ranges of code points.
-/

namespace ClassLang.Text

/-- Whether a character lies in one of some ranges of code points, ends included. -/
def inRanges (ranges : List (Nat × Nat)) (c : Char) : Bool :=
  ranges.any fun r => r.1 ≤ c.toNat && c.toNat ≤ r.2

end ClassLang.Text
