/-! # Ranges of characters

Properties of characters that are given by ranges of code points. -/

namespace Lisplet.Text

/-- Whether a code point lies in one of the ranges. -/
def inRanges (ranges : Array (Nat × Nat)) (c : Char) : Bool :=
  ranges.any fun (first, last) => first ≤ c.toNat && c.toNat ≤ last

end Lisplet.Text
