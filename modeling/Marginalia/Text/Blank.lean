import Marginalia.Text.Basic

/-! White space. The class is the Unicode property `White_Space`: the ASCII controls from tab to
carriage return, the space, and the twenty-odd separators beyond ASCII. Zero-width characters are
not in it. -/

namespace Marginalia

def isBlank (c : Char) : Bool :=
  let n := c.toNat
  (0x09 ≤ n && n ≤ 0x0D) || n == 0x20 || n == 0x85 || n == 0xA0 || n == 0x1680 ||
    (0x2000 ≤ n && n ≤ 0x200A) || n == 0x2028 || n == 0x2029 || n == 0x202F || n == 0x205F ||
    n == 0x3000

namespace Text

/-- The white space a text begins with. -/
def indent (s : Text) : Text := s.takeWhile isBlank

/-- The text without the white space it begins with. -/
def trimStart (s : Text) : Text := s.dropWhile isBlank

/-- The text without the white space it ends with. -/
def trimEnd (s : Text) : Text := (s.reverse.dropWhile isBlank).reverse

def trim (s : Text) : Text := trimEnd (trimStart s)

def isAllBlank (s : Text) : Bool := s.all isBlank

theorem indent_append_trimStart (s : Text) : s.indent ++ s.trimStart = s :=
  List.takeWhile_append_dropWhile

end Text
end Marginalia
