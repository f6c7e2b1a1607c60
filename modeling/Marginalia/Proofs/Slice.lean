import Marginalia.Text.Blank

/-! Pieces of a text by their byte positions, and what trimming takes away. A piece is cut out where both
of its ends lie between characters; so a text that is split into pieces gives each of them back at the
position where the pieces before it end. -/

namespace Marginalia.Text

/-- A text cut in two at a byte position, if the position lies between characters of it. -/
def cutAt? : Nat → Text → Option (Text × Text)
  | 0, s => some ([], s)
  | _ + 1, [] => none
  | n + 1, c :: s =>
    if c.utf8Size ≤ n + 1 then
      (cutAt? (n + 1 - c.utf8Size) s).map fun (before, after) => (c :: before, after)
    else none

/-- The position lies between characters of the text, or at one of its ends. -/
def isBoundary (s : Text) (n : Nat) : Bool := (cutAt? n s).isSome

/-- The piece of a text from one byte position to another, if both lie between characters of it. -/
def slice? (s : Text) (first last : Nat) : Option Text :=
  if first ≤ last then (cutAt? first s).bind fun (_, rest) => (cutAt? (last - first) rest).map Prod.fst
  else none

theorem cutAt?_append (before after : Text) : cutAt? before.bytes (before ++ after) = some (before, after) := by
  induction before with
  | nil => rw [bytes_nil, List.nil_append, cutAt?]
  | cons c before ih =>
      have hpos := c.utf8Size_pos
      obtain ⟨n, hn⟩ : ∃ n, bytes (c :: before) = n + 1 := ⟨c.utf8Size + bytes before - 1, by
        rw [bytes_cons]
        omega⟩
      have hrest : n + 1 - c.utf8Size = bytes before := by
        rw [← hn, bytes_cons]
        omega
      have hle : c.utf8Size ≤ n + 1 := by
        rw [← hn, bytes_cons]
        omega
      rw [hn, List.cons_append, cutAt?, if_pos hle, hrest, ih]
      rfl

theorem isBoundary_append (before after : Text) : isBoundary (before ++ after) before.bytes = true := by
  rw [isBoundary, cutAt?_append]
  rfl

theorem slice?_append (before s after : Text) :
    slice? (before ++ s ++ after) before.bytes (before.bytes + s.bytes) = some s := by
  rw [slice?, if_pos (Nat.le_add_right _ _), List.append_assoc, cutAt?_append, Nat.add_sub_cancel_left]
  show (cutAt? s.bytes (s ++ after)).map Prod.fst = some s
  rw [cutAt?_append]
  rfl

/-- No white space at either end. -/
structure IsTrimmed (s : Text) : Prop where
  head : ∀ c ∈ s.head?, isBlank c = false
  last : ∀ c ∈ s.getLast?, isBlank c = false

theorem isTrimmed_iff {s : Text} :
    (s.head?.all (!isBlank ·) = true ∧ s.getLast?.all (!isBlank ·) = true) ↔ s.IsTrimmed := by
  simp only [Option.all_eq_true, Bool.not_eq_true']
  exact ⟨fun h => ⟨h.1, h.2⟩, fun h => ⟨h.head, h.last⟩⟩

instance (s : Text) : Decidable s.IsTrimmed := decidable_of_iff _ isTrimmed_iff

theorem isAllBlank_append {s t : Text} (hs : s.isAllBlank = true) (ht : t.isAllBlank = true) :
    isAllBlank (s ++ t) = true := by
  rw [isAllBlank, List.all_append, Bool.and_eq_true]
  exact ⟨hs, ht⟩

theorem isAllBlank_indent (s : Text) : isAllBlank s.indent = true := List.all_takeWhile

theorem head_trimStart (s : Text) : ∀ c ∈ s.trimStart.head?, isBlank c = false := by
  intro c hc
  have h := List.head?_dropWhile_not isBlank s
  rw [trimStart] at hc
  rw [hc] at h
  simpa using h

theorem exists_append_trimEnd (s : Text) : ∃ tail, isAllBlank tail = true ∧ s = s.trimEnd ++ tail := by
  refine ⟨(s.reverse.takeWhile isBlank).reverse, ?_, ?_⟩
  · rw [isAllBlank, List.all_reverse]
    exact List.all_takeWhile
  · rw [trimEnd, ← List.reverse_append, List.takeWhile_append_dropWhile, List.reverse_reverse]

theorem last_trimEnd (s : Text) : ∀ c ∈ s.trimEnd.getLast?, isBlank c = false := by
  intro c hc
  rw [trimEnd, List.getLast?_reverse] at hc
  exact head_trimStart s.reverse c hc

theorem head_trimEnd {s : Text} {c : Char} (h : c ∈ s.trimEnd.head?) : c ∈ s.head? := by
  obtain ⟨tail, -, htail⟩ := exists_append_trimEnd s
  rw [htail, List.head?_append, h]
  rfl

theorem isTrimmed_trim (s : Text) : IsTrimmed s.trim where
  head := fun c hc => head_trimStart s c (head_trimEnd hc)
  last := last_trimEnd s.trimStart

/-- A text is white space, what trimming leaves of it, and white space. -/
theorem exists_eq_trim (s : Text) : ∃ tail, isAllBlank tail = true ∧ s = s.indent ++ s.trim ++ tail := by
  obtain ⟨tail, hblank, htail⟩ := exists_append_trimEnd s.trimStart
  refine ⟨tail, hblank, ?_⟩
  rw [List.append_assoc, trim, ← htail, indent_append_trimStart]

theorem trimStart_of_head {s : Text} (h : ∀ c ∈ s.head?, isBlank c = false) : s.trimStart = s := by
  cases s with
  | nil => rfl
  | cons c s =>
      have hc : isBlank c = false := h c rfl
      rw [trimStart, List.dropWhile_cons_of_neg (by rw [hc]; decide)]

theorem trimEnd_of_last {s : Text} (h : ∀ c ∈ s.getLast?, isBlank c = false) : s.trimEnd = s := by
  have hstart : trimStart s.reverse = s.reverse := by
    apply trimStart_of_head
    rw [List.head?_reverse]
    exact h
  show (trimStart s.reverse).reverse = s
  rw [hstart, List.reverse_reverse]

theorem IsTrimmed.trim_eq {s : Text} (h : IsTrimmed s) : s.trim = s := by
  rw [trim, trimStart_of_head h.head, trimEnd_of_last h.last]

/-- What is left of a trimmed text after a cut, without the white space it begins with, is trimmed. -/
theorem IsTrimmed.trimStart_of_append {before after : Text} (h : IsTrimmed (before ++ after)) :
    IsTrimmed after.trimStart where
  head := head_trimStart after
  last := by
    intro c hc
    apply h.last c
    rw [List.getLast?_append, ← indent_append_trimStart after, List.getLast?_append, hc]
    rfl

end Marginalia.Text
