/-! # Code points in ranges -/
namespace Concordance.Text

/-- Character properties are given by ranges of code points, both ends included. -/
def inRanges (ranges : List (Nat × Nat)) (c : Char) : Bool :=
  ranges.any fun (first, last) => first ≤ c.toNat && c.toNat ≤ last

end Concordance.Text
