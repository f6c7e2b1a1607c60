import Marginalia.Display.Width

/-! Texts cut to a number of columns. -/

namespace Marginalia.Display

/-- The longest start of a text whose characters, each by itself, take at most `budget` columns. -/
def takeColumns : (budget : Nat) → Text → Text
  | _, [] => []
  | budget, c :: s =>
    if charWidth c ≤ budget then c :: takeColumns (budget - charWidth c) s else []

/-- The text itself if it fits into `limit` columns; otherwise as much of it as leaves room for one
more column, and an ellipsis. -/
def truncate (limit : Nat) (s : Text) : Text :=
  if width s ≤ limit then s else takeColumns (limit - 1) s ++ ['…']

end Marginalia.Display
