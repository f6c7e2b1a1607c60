import Marginalia.Text.Search

/-! Physical lines. A line ends at a line feed, and one carriage return right before that line feed
belongs to the ending. A carriage return anywhere else is an ordinary character, also at the very
end of the text, and a final line feed starts no further line. -/

namespace Marginalia.Text

/-- A text without one carriage return at its end. -/
def dropReturn (s : Text) : Text := if s.getLast? = some '\r' then s.dropLast else s

/-- The physical lines of a text: the pieces that a line feed ends, and the piece after the last
line feed if it is not empty. -/
def lines (s : Text) : List Text :=
  let pieces := splitOn '\n' s
  pieces.dropLast.map dropReturn ++ pieces.getLast?.toList.filter fun piece => !piece.isEmpty

end Marginalia.Text
