import Marginalia.Proofs.Relocation

/-! Code lines as barriers. A code line ends whatever block is open before it, just as the end of the file
does, and what follows is read as a file of its own. So a file with a code line in it has the notes and
warnings of the lines before it, which are anchored at that line if nothing nearer is, and those of the
lines after it, further down. -/

namespace Marginalia

namespace Findings

/-- The findings with an anchor for every note that has none. -/
def withAnchor (found : Findings) (anchor : Anchor) : Findings :=
  { found with notes := found.notes.map fun n => { n with anchor := n.anchor.or (some anchor) } }

theorem append_assoc (a b c : Findings) : a ++ b ++ c = a ++ (b ++ c) := by
  show Findings.mk _ _ = Findings.mk _ _
  simp only [notes_append, warnings_append, List.append_assoc]

theorem anchored_append (a b : Findings) (lines : List TaggedLine) :
    (a ++ b).anchored lines = a.anchored lines ++ b.anchored lines := by
  show Findings.mk _ _ = Findings.mk _ _
  rw [notes_append, warnings_append, List.map_append]
  rfl

end Findings

theorem BlockState.run_append_code (state : BlockState) (lines rest : List TaggedLine) (line : Nat)
    (text : Text) :
    state.run (lines ++ ⟨line, .code text⟩ :: rest) = state.run lines ++ BlockState.idle.run rest := by
  induction lines generalizing state with
  | nil => rfl
  | cons t lines ih => rw [List.cons_append, run_cons, run_cons, ih, Findings.append_assoc]

namespace CommentStyle

theorem tagFrom_down (style : CommentStyle) (isOpen : Bool) (line count : Nat) (lines : List Text) :
    style.tagFrom isOpen (line + count) lines =
      (style.tagFrom isOpen line lines).map (Relocation.down count).tagged := by
  induction lines generalizing isOpen line with
  | nil => rfl
  | cons raw rest ih =>
      rw [tagFrom_cons, tagFrom_cons, List.map_cons, ← ih, Nat.add_right_comm]
      simp [Relocation.tagged, Relocation.down]

theorem tagLines_append_code {style : CommentStyle} {before : List Text} {code text : Text}
    (hopen : style.openAfter false before = false) (hcode : (style.tag false code).1 = .code text)
    (after : List Text) :
    style.tagLines (before ++ code :: after) =
      style.tagLines before ++ ⟨before.length + 1, .code code⟩ ::
        (style.tagLines after).map (Relocation.down (before.length + 1)).tagged := by
  rw [tagLines, tagFrom_append, hopen, tagFrom_cons, tag_of_code hcode, Nat.add_comm 1 before.length,
    Nat.add_comm (before.length + 1) 1, tagFrom_down, tagLines, tagLines]

end CommentStyle

section Anchors

variable {lines : List TaggedLine} {line n : Nat} {text : Text}

theorem anchorAfter_append_code (hle : n ≤ lines.length) (rest : List TaggedLine) :
    anchorAfter (anchorIndex (lines ++ ⟨line, .code text⟩ :: rest)) n =
      (anchorAfter (anchorIndex lines) n).or (some ⟨line, text⟩) := by
  rw [anchorAfter_anchorIndex, anchorAfter_anchorIndex, List.drop_append_of_le_length hle, List.findSome?_append]
  rfl

theorem anchorAfter_behind_code (ρ : Relocation) (rest : List TaggedLine) :
    anchorAfter (anchorIndex (lines ++ ⟨line, .code text⟩ :: rest.map ρ.tagged)) (n + (lines.length + 1)) =
      (anchorAfter (anchorIndex rest) n).map ρ.anchor := by
  have hdrop : (lines ++ ⟨line, .code text⟩ :: rest.map ρ.tagged).drop (n + (lines.length + 1)) =
      (rest.drop n).map ρ.tagged := by
    rw [Nat.add_comm n, ← List.drop_drop, List.append_cons, List.map_drop]
    congr 1
    exact List.drop_left' (by simp)
  rw [anchorAfter_anchorIndex, anchorAfter_anchorIndex, hdrop, ρ.findSome?_map]

end Anchors

/-- Extraction at a code line outside block comments: what the lines before it give, anchored there where
they gave no anchor, and then what the lines after it give on their own, moved down. -/
theorem extract_append_code {style : CommentStyle} {before : List Text} {code text : Text}
    (hopen : style.openAfter false before = false) (hcode : (style.tag false code).1 = .code text)
    (after : List Text) :
    style.extract (before ++ code :: after) =
      (style.extract before).withAnchor ⟨before.length + 1, code⟩ ++
        (Relocation.down (before.length + 1)).findings (style.extract after) := by
  have hlength : (style.tagLines before).length = before.length := style.length_tagFrom false 1 before
  have hwell := assemble_wellFormed style before
  rw [CommentStyle.extract, CommentStyle.tagLines_append_code hopen hcode]
  rw [assemble, BlockState.run_append_code, Findings.anchored_append]
  congr 1
  · -- No note of the lines before the code line ends after them, so each sees that line last.
    show Findings.mk _ _ = Findings.mk _ _
    congr 1
    rw [CommentStyle.extract, Findings.anchored, List.map_map]
    refine List.map_congr_left fun n hn => ?_
    have hle : n.endLine ≤ (style.tagLines before).length := hlength ▸ (hwell.notes n hn).end_le_count
    rw [anchorAfter_append_code hle]
    rfl
  · show (assemble _).anchored _ = _
    rw [Relocation.assemble_map]
    refine Relocation.anchored_findings _ fun n _ => ?_
    rw [← hlength]
    exact anchorAfter_behind_code _ _

/-- Braces left open at the second level before the code line, and a brace after it that closes nothing. -/
theorem extract_append_code_nested :
    CommentStyle.slashes.openAfter false ["// TODO: \x7b", "/* \x7b */", "// a"] = false ∧
      (CommentStyle.slashes.tag false "x").1 = .code "x" ∧
      CommentStyle.slashes.extract
        ((["// TODO: \x7b", "/* \x7b */", "// a"] : List Text) ++ ("x" : Text) :: ["// \x7d", "// XXX: b", "y"]) =
        (CommentStyle.slashes.extract ["// TODO: \x7b", "/* \x7b */", "// a"]).withAnchor ⟨4, "x"⟩ ++
          (Relocation.down 4).findings (CommentStyle.slashes.extract ["// \x7d", "// XXX: b", "y"]) :=
  have hcode : (CommentStyle.slashes.tag false "x").1 = .code "x" := by decide
  ⟨by decide, hcode, extract_append_code (by decide) hcode _⟩

end Marginalia
