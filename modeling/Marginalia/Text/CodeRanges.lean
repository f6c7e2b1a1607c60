import Marginalia.Text.Basic

/-! Sets of characters given by ranges of code points. -/

namespace Marginalia

/-- Ranges of code points, each with its first and last one, in increasing order. -/
abbrev CodeRanges := List (Nat × Nat)

def CodeRanges.has (ranges : CodeRanges) (c : Char) : Bool :=
  ranges.any fun range => range.1 ≤ c.toNat && c.toNat ≤ range.2

end Marginalia
