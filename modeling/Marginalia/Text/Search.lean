import Marginalia.Text.Basic

/-! Searching a text for a pattern. A search answers with the pieces around the occurrence, so a
caller never computes with positions: the pieces and the pattern put together are the text. The
empty pattern occurs everywhere: its first occurrence is at the start, its last at the end. -/

namespace Marginalia.Text

/-- What follows `pattern` at the start of a text, if the text starts with it. -/
def after? : (pattern : Text) → Text → Option Text
  | [], s => some s
  | _ :: _, [] => none
  | p :: pattern, c :: s => if p = c then after? pattern s else none

def startsWith (s pattern : Text) : Bool := (after? pattern s).isSome

/-- The pieces before and after the first occurrence of `pattern`. -/
def cutFirst? (pattern : Text) : Text → Option (Text × Text)
  | [] => if pattern = [] then some ([], []) else none
  | c :: s =>
    match after? pattern (c :: s) with
    | some rest => some ([], rest)
    | none => (cutFirst? pattern s).map fun (before, rest) => (c :: before, rest)

/-- The pieces before and after the last occurrence of `pattern`. -/
def cutLast? (pattern : Text) : Text → Option (Text × Text)
  | [] => if pattern = [] then some ([], []) else none
  | c :: s =>
    match cutLast? pattern s with
    | some (before, rest) => some (c :: before, rest)
    | none => (after? pattern (c :: s)).map fun rest => ([], rest)

def contains (s pattern : Text) : Bool := (cutFirst? pattern s).isSome

/-- One more character in front of the pieces of a text: a separator starts a new piece. -/
def splitStep (sep c : Char) (pieces : List Text) : List Text :=
  if c = sep then [] :: pieces
  else
    match pieces with
    | piece :: later => (c :: piece) :: later
    | [] => [[c]]

/-- The pieces of a text between the occurrences of a separating character; one more than there
are separators. -/
def splitOn (sep : Char) (s : Text) : List Text := s.foldr (splitStep sep) [[]]

/-- Texts put one after another with a separator between neighbours. -/
def join (sep : Text) : List Text → Text
  | [] => []
  | [s] => s
  | s :: t :: rest => s ++ sep ++ join sep (t :: rest)

theorem eq_append_of_after? {pattern s rest : Text} (h : after? pattern s = some rest) :
    s = pattern ++ rest := by
  induction pattern generalizing s with
  | nil => simp [after?] at h; simpa using h
  | cons p pattern ih =>
    cases s with
    | nil => simp [after?] at h
    | cons c s =>
      simp only [after?] at h
      split at h
      · next hc => subst hc; simp [ih h]
      · simp at h

theorem length_le_of_after? {pattern s rest : Text} (h : after? pattern s = some rest) :
    rest.length ≤ s.length := by
  simp [eq_append_of_after? h]

theorem after?_append (pattern rest : Text) : after? pattern (pattern ++ rest) = some rest := by
  induction pattern with
  | nil => simp [after?]
  | cons p pattern ih => simpa [after?] using ih

theorem eq_append_of_cutFirst? {pattern s before rest : Text}
    (h : cutFirst? pattern s = some (before, rest)) : s = before ++ pattern ++ rest := by
  induction s generalizing before with
  | nil =>
    simp only [cutFirst?] at h
    split at h
    · next hp => simp only [Option.some.injEq, Prod.mk.injEq] at h; simp [← h.1, ← h.2, hp]
    · simp at h
  | cons c s ih =>
    simp only [cutFirst?] at h
    split at h
    · next hr =>
      simp only [Option.some.injEq, Prod.mk.injEq] at h
      simp [← h.1, ← h.2, eq_append_of_after? hr]
    · simp only [Option.map_eq_some_iff, Prod.exists, Prod.mk.injEq] at h
      obtain ⟨b, r, hb, rfl, rfl⟩ := h
      simp [ih hb]

theorem length_le_of_cutFirst? {pattern s before rest : Text}
    (h : cutFirst? pattern s = some (before, rest)) : rest.length ≤ s.length := by
  rw [eq_append_of_cutFirst? h, List.length_append]
  exact Nat.le_add_left _ _

theorem eq_append_of_cutLast? {pattern s before rest : Text}
    (h : cutLast? pattern s = some (before, rest)) : s = before ++ pattern ++ rest := by
  induction s generalizing before with
  | nil =>
    simp only [cutLast?] at h
    split at h
    · next hp => simp only [Option.some.injEq, Prod.mk.injEq] at h; simp [← h.1, ← h.2, hp]
    · simp at h
  | cons c s ih =>
    simp only [cutLast?] at h
    split at h
    · next b r hb =>
      simp only [Option.some.injEq, Prod.mk.injEq] at h
      obtain ⟨rfl, rfl⟩ := h
      simp [ih hb]
    · simp only [Option.map_eq_some_iff, Prod.mk.injEq] at h
      obtain ⟨r, hr, rfl, rfl⟩ := h
      simp [eq_append_of_after? hr]

end Marginalia.Text
