/-! Texts as lists of characters. Every cut the library makes is a cut of such a list, so no
position can fall outside a text or inside a character; positions are measured in bytes of the
UTF-8 encoding only where they are reported. -/

namespace Marginalia

/-- A text: paths, tags, comment texts, messages and rendered reports. -/
abbrev Text := List Char

instance : Coe String Text := ⟨String.toList⟩

namespace Text

/-- The length of a text in bytes of its UTF-8 encoding. -/
def bytes (s : Text) : Nat := s.foldr (fun c n => c.utf8Size + n) 0

/-- The text with its ASCII letters in lower case. -/
def lower (s : Text) : Text := s.map Char.toLower

@[simp] theorem bytes_nil : bytes [] = 0 := rfl

@[simp] theorem bytes_cons (c : Char) (s : Text) : bytes (c :: s) = c.utf8Size + bytes s := rfl

@[simp] theorem bytes_append (s t : Text) : bytes (s ++ t) = bytes s + bytes t := by
  induction s with
  | nil => simp
  | cons c s ih => rw [List.cons_append, bytes_cons, bytes_cons, ih, Nat.add_assoc]

theorem bytes_pos {s : Text} (h : s ≠ []) : 0 < s.bytes := by
  cases s with
  | nil => contradiction
  | cons c s =>
      have hpos := c.utf8Size_pos
      rw [Text.bytes_cons]
      omega

end Text
end Marginalia
