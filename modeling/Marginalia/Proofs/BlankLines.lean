import Marginalia.Proofs.Barrier

/-! Blank lines. A blank line outside block comments leaves assembly where it is, whatever block is open and
however deep, and it is no code, so nobody is anchored at it. Putting one into a file only moves the lines
after it down by one. The search for anchors goes by place, and the places after the blank line move along
with the numbers of their lines. -/

namespace Marginalia

/-- A new line after the first `count` lines: those after it move down by one. -/
def Relocation.gap (count : Nat) : Relocation := ⟨fun n => if n ≤ count then n else n + 1, fun _ => []⟩

namespace Relocation

theorem tagged_gap_of_le {count : Nat} {t : TaggedLine} (h : t.line ≤ count) : (gap count).tagged t = t := by
  simp [tagged, gap, h]

theorem tagged_gap_of_lt {count : Nat} {t : TaggedLine} (h : count < t.line) :
    (gap count).tagged t = (down 1).tagged t := by
  simp [tagged, gap, down, Nat.not_le_of_lt h]

end Relocation

namespace CommentStyle

theorem tag_of_isAllBlank (style : CommentStyle) {blank : Text} (h : blank.isAllBlank = true) :
    style.tag false blank = (.blank, false) := by
  have htrim : blank.trimStart = [] := by
    have happend : (blank ++ []).trimStart = Text.trimStart [] :=
      List.dropWhile_append_of_pos (List.all_eq_true.mp h)
    rwa [List.append_nil] at happend
  simp [tag, tagOutside, htrim]

theorem map_gap_tagLines (style : CommentStyle) (before : List Text) :
    (style.tagLines before).map (Relocation.gap before.length).tagged = style.tagLines before := by
  conv_rhs => rw [← List.map_id (style.tagLines before)]
  apply List.map_congr_left
  intro t ht
  exact Relocation.tagged_gap_of_le (line_of_mem_tagLines ht).2

theorem map_gap_tagFrom (style : CommentStyle) (isOpen : Bool) (count : Nat) (after : List Text) :
    (style.tagFrom isOpen (count + 1) after).map (Relocation.gap count).tagged =
      style.tagFrom isOpen (count + 2) after := by
  rw [style.tagFrom_down isOpen (count + 1) 1]
  apply List.map_congr_left
  intro t ht
  obtain ⟨lines, raw, later, -, rfl⟩ := mem_tagFrom.mp ht
  apply Relocation.tagged_gap_of_lt
  show count < count + 1 + lines.length
  omega

/-- The lines around a blank one are tagged as without it, those after it further down. -/
theorem tagLines_insert_blank {style : CommentStyle} {before : List Text} {blank : Text}
    (hopen : style.openAfter false before = false) (hblank : blank.isAllBlank = true) (after : List Text) :
    ∃ later, (style.tagLines (before ++ after)).map (Relocation.gap before.length).tagged =
        style.tagLines before ++ later ∧
      style.tagLines (before ++ blank :: after) =
        style.tagLines before ++ ⟨before.length + 1, .blank⟩ :: later := by
  refine ⟨style.tagFrom false (before.length + 2) after, ?_, ?_⟩
  · rw [tagLines, tagFrom_append, hopen, List.map_append, Nat.add_comm 1, map_gap_tagFrom]
    exact congrArg (· ++ _) (style.map_gap_tagLines before)
  · rw [tagLines, tagFrom_append, hopen, tagFrom_cons, style.tag_of_isAllBlank hblank, Nat.add_comm 1]
    rfl

end CommentStyle

theorem BlockState.run_insert_blank (state : BlockState) (lines rest : List TaggedLine) (line : Nat) :
    state.run (lines ++ ⟨line, .blank⟩ :: rest) = state.run (lines ++ rest) := by
  induction lines generalizing state with
  | nil => rfl
  | cons t lines ih => rw [List.cons_append, List.cons_append, run_cons, run_cons, ih]

theorem anchorAfter_insert_blank (lines rest : List TaggedLine) (line n : Nat) :
    anchorAfter (anchorIndex (lines ++ ⟨line, .blank⟩ :: rest)) ((Relocation.gap lines.length).line n) =
      anchorAfter (anchorIndex (lines ++ rest)) n := by
  rw [anchorAfter_anchorIndex, anchorAfter_anchorIndex]
  by_cases hle : n ≤ lines.length
  · -- The search starts before the blank line and passes over it.
    have hline : (Relocation.gap lines.length).line n = n := if_pos hle
    rw [hline, List.drop_append_of_le_length hle, List.drop_append_of_le_length hle, List.findSome?_append,
      List.findSome?_append]
    rfl
  · -- It starts after the blank line, one place further on.
    obtain ⟨k, rfl⟩ : ∃ k, n = lines.length + k := ⟨n - lines.length, by omega⟩
    have hline : (Relocation.gap lines.length).line (lines.length + k) = lines.length + (k + 1) := if_neg hle
    rw [hline, List.drop_length_add_append, List.drop_length_add_append, List.drop_succ_cons]

/-- A blank line put in where no block comment is open changes nothing but the numbers of the lines after it,
also in the middle of a block. -/
theorem extract_insert_blank {style : CommentStyle} {before : List Text} {blank : Text}
    (hopen : style.openAfter false before = false) (hblank : blank.isAllBlank = true) (after : List Text) :
    style.extract (before ++ blank :: after) =
      (Relocation.gap before.length).findings (style.extract (before ++ after)) := by
  obtain ⟨later, hwithout, hwith⟩ := CommentStyle.tagLines_insert_blank hopen hblank after
  have hlength : (style.tagLines before).length = before.length := style.length_tagFrom false 1 before
  have hassemble : assemble (style.tagLines (before ++ blank :: after)) =
      (Relocation.gap before.length).findings (assemble (style.tagLines (before ++ after))) := by
    rw [← Relocation.assemble_map, hwithout, hwith]
    exact BlockState.idle.run_insert_blank _ _ _
  rw [CommentStyle.extract, hassemble]
  refine Relocation.anchored_findings _ fun n _ => ?_
  rw [hwith, ← hlength, anchorAfter_insert_blank, ← hwithout, anchorAfter_anchorIndex, anchorAfter_anchorIndex,
    ← List.map_drop, Relocation.findSome?_map, hlength]

/-- A blank line at the second level of braces that code cuts off. -/
theorem extract_insert_blank_nested :
    let before : List Text := ["// TODO: \x7b", "/* \x7b */"]
    let blank : Text := "\t\u3000"
    let after : List Text := ["// a", "x"]
    CommentStyle.slashes.openAfter false before = false ∧ blank.isAllBlank = true ∧
      CommentStyle.slashes.extract (before ++ blank :: after) =
        (Relocation.gap 2).findings (CommentStyle.slashes.extract (before ++ after)) :=
  ⟨by decide, by decide, extract_insert_blank (by decide) (by decide) _⟩

end Marginalia
