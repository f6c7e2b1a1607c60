import Marginalia.Source
import Marginalia.Proofs.PathSteps

/-! Line endings. A line feed ends a line, and so does a carriage return with a line feed after it; which of
the two a text uses, and whether it mixes them, makes no difference to its lines. The return that an ending
adds is the one that reading takes off again, so the text must not have a return there before: of two returns
in front of a line feed the first belongs to the line. A return that no line feed follows is left alone on
both sides, and so is the last line, which has no ending. -/

namespace Marginalia

namespace Text

/-- The text with a carriage return before the line feeds that are chosen. Line feeds are counted from zero
on. -/
def withReturns (chosen : Nat → Bool) : Text → Text
  | [] => []
  | c :: s =>
    if c = '\n' then
      if chosen 0 then '\r' :: '\n' :: withReturns (fun n => chosen (n + 1)) s
      else '\n' :: withReturns (fun n => chosen (n + 1)) s
    else c :: withReturns chosen s

def withAllReturns (s : Text) : Text := s.flatMap fun c => if c = '\n' then ['\r', '\n'] else [c]

theorem withReturns_all (s : Text) : s.withReturns (fun _ => true) = s.withAllReturns := by
  induction s with
  | nil => rfl
  | cons c s ih =>
      rw [withReturns, withAllReturns, List.flatMap_cons]
      by_cases hc : c = '\n'
      · rw [if_pos hc, if_pos rfl, if_pos hc, ih]
        rfl
      · rw [if_neg hc, if_neg hc, ih]
        rfl

theorem withReturns_of_notMem {s : Text} (h : '\n' ∉ s) (chosen : Nat → Bool) : s.withReturns chosen = s := by
  induction s with
  | nil => rfl
  | cons c s ih =>
      rw [List.mem_cons, not_or] at h
      obtain ⟨hc, hs⟩ := h
      rw [withReturns, if_neg (Ne.symm hc), ih hs]

/-- The first line feed gets its return, and the rest is written with the choices that come after. -/
theorem withReturns_cut {first : Text} (h : '\n' ∉ first) (rest : Text) (chosen : Nat → Bool) :
    (first ++ '\n' :: rest).withReturns chosen =
      (if chosen 0 then first ++ ['\r'] else first) ++ '\n' :: rest.withReturns fun n => chosen (n + 1) := by
  induction first with
  | nil =>
      rw [List.nil_append, withReturns, if_pos rfl]
      by_cases hchosen : chosen 0 = true <;> simp [hchosen]
  | cons c first ih =>
      rw [List.mem_cons, not_or] at h
      obtain ⟨hc, hfirst⟩ := h
      rw [List.cons_append, withReturns, if_neg (Ne.symm hc), ih hfirst]
      by_cases hchosen : chosen 0 = true <;> simp [hchosen]

theorem lines_cut {first : Text} (h : '\n' ∉ first) (rest : Text) :
    lines (first ++ '\n' :: rest) = dropReturn first :: lines rest := by
  have hne := splitOn_ne_nil '\n' rest
  rw [lines, lines, splitOn_cut h, List.dropLast_cons_of_ne_nil hne, List.map_cons, List.getLast?_cons_of_ne_nil hne,
    List.cons_append]

theorem dropReturn_concat (s : Text) : dropReturn (s ++ ['\r']) = s := by
  rw [dropReturn, List.getLast?_concat, if_pos rfl, List.dropLast_concat]

theorem dropReturn_of_last {s : Text} (h : s.getLast? ≠ some '\r') : dropReturn s = s := if_neg h

/-- A text without a return in front of a line feed has the same lines with returns put there. -/
theorem lines_withReturns {s : Text} (h : ¬ ['\r', '\n'] <:+: s) (chosen : Nat → Bool) :
    (s.withReturns chosen).lines = s.lines := by
  -- Along the lines of the text: each choice is about one ending.
  induction s using splitOn_induction '\n' generalizing chosen with
  | last s hs => rw [withReturns_of_notMem hs]
  | cut first rest hfirst ih =>
      have hrest : ¬ ['\r', '\n'] <:+: rest := by
        intro hinfix
        apply h
        exact hinfix.trans (List.suffix_append_of_suffix (List.suffix_cons '\n' rest)).isInfix
      have hlast : first.getLast? ≠ some '\r' := by
        intro hlast
        obtain ⟨front, rfl⟩ := List.getLast?_eq_some_iff.mp hlast
        exact h ⟨front, rest, by simp⟩
      have hlines : lines (first ++ '\n' :: rest) = first :: lines rest := by
        rw [lines_cut hfirst, dropReturn_of_last hlast]
      rw [withReturns_cut hfirst, hlines]
      by_cases hchosen : chosen 0 = true
      · have hlonger : '\n' ∉ first ++ ['\r'] := by simpa using hfirst
        rw [if_pos hchosen, lines_cut hlonger, dropReturn_concat, ih hrest]
      · rw [if_neg hchosen, lines_cut hfirst, dropReturn_of_last hlast, ih hrest]

end Text

/-- A file has the same lines, and the same notes and warnings, whichever of its lines end with a carriage
return before the line feed: all of them, none, or any choice. -/
theorem Source.new_withReturns {text : Text} (h : ¬ ['\r', '\n'] <:+: text) (path language : Text) :
    new path language text.withAllReturns = new path language text ∧
    ∀ chosen, new path language (text.withReturns chosen) = new path language text ∧
      (∀ style, (new path language (text.withReturns chosen)).extractWith style =
        (new path language text).extractWith style) ∧
      ∀ table, (new path language (text.withReturns chosen)).extract table =
        (new path language text).extract table := by
  have hsame : ∀ chosen, new path language (text.withReturns chosen) = new path language text := by
    intro chosen
    rw [new, new, Text.lines_withReturns h]
  refine ⟨?_, fun chosen => ⟨hsame chosen, fun style => ?_, fun table => ?_⟩⟩
  · rw [← Text.withReturns_all]
    exact hsame _
  · rw [hsame chosen]
  · rw [hsame chosen]

/-- The first and the third ending are respelled, around an empty line; returns that no line feed follows
stay, also at the very end. -/
theorem Source.new_withReturns_mixed :
    ¬ ['\r', '\n'] <:+: ("# TODO: a\n\nx\r\ry\n\r" : String).toList ∧
    (new "a.py" "python" "# TODO: a\r\n\nx\r\ry\r\n\r").extractWith .hash =
      (new "a.py" "python" "# TODO: a\n\nx\r\ry\n\r").extractWith .hash := by
  have hbare : ¬ ['\r', '\n'] <:+: ("# TODO: a\n\nx\r\ry\n\r" : String).toList := by decide +kernel
  have hspelled : Text.withReturns (fun n => n != 1) ("# TODO: a\n\nx\r\ry\n\r" : String).toList =
      ("# TODO: a\r\n\nx\r\ry\r\n\r" : String).toList := by decide +kernel
  have hsame := ((new_withReturns hbare "a.py" "python").2 fun n => n != 1).2.1 .hash
  rw [hspelled] at hsame
  exact ⟨hbare, hsame⟩

end Marginalia
