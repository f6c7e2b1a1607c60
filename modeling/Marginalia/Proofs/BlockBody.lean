import Marginalia.Proofs.Order

/-! The bodies of blocks. A block starts at its opener and reaches to the line that closes it, or, if no
line does, to the last comment line before the next code. Its body holds every comment line in between,
unchanged and in order, and no code line falls into its range. Which line closes a block is said on the
tagged lines of the file alone. -/

namespace Marginalia

/-- The comment lines with numbers strictly between two others. -/
def bodyBetween (lines : List TaggedLine) (first last : Nat) : List BodyLine :=
  (bodyLines lines).filter fun b => first < b.line ∧ b.line < last

/-- The line `line` closes the block that line `start` opens: no code stands between them, and its text
ends the block after the comment lines between them. -/
structure ClosesBlock (lines : List TaggedLine) (kind : BlockKind) (start line : Nat) (c : Comment) :
    Prop where
  mem : ⟨line, .comment c⟩ ∈ lines
  lt : start < line
  noCode : ∀ tagged ∈ lines, start < tagged.line → tagged.line < line → tagged.isCode = false
  ends : kind.EndsAt ((bodyBetween lines start line).map BodyLine.text) c.text

/-- A note of a block as the tagged lines of its file have it. -/
structure Note.ExactBlock (note : Note) (kind : BlockKind) (lines : List TaggedLine) : Prop where
  opener : ∃ c, ⟨note.startLine, .comment c⟩ ∈ lines ∧ Role.ofText c.text = kind.opening
  noCode : ∀ tagged ∈ lines, note.startLine ≤ tagged.line → tagged.line ≤ note.endLine →
    tagged.isCode = false
  closed : (∃ line c, ClosesBlock lines kind note.startLine line c) →
    (∃ c, ClosesBlock lines kind note.startLine note.endLine c) ∧
      (∀ line c, line < note.endLine → ¬ ClosesBlock lines kind note.startLine line c) ∧
      note.body = bodyBetween lines note.startLine note.endLine ∧ ∀ b ∈ note.body, b.line ≠ note.endLine
  cutOff : (¬ ∃ line c, ClosesBlock lines kind note.startLine line c) →
    ∃ c, ⟨note.endLine, .comment c⟩ ∈ lines ∧
      note.body = bodyBetween lines note.startLine note.endLine ++ [⟨note.endLine, c.column, c.text⟩]

/-- Between a line of a file and a number stand the comments of the lines that come before that number. -/
theorem bodyBetween_eq_bodyLines {before inside after : List TaggedLine} {first : TaggedLine} {last : Nat}
    (h : Numbered (before ++ first :: (inside ++ after))) (hinside : ∀ tagged ∈ inside, tagged.line < last)
    (hafter : ∀ tagged ∈ after, last ≤ tagged.line) :
    bodyBetween (before ++ first :: (inside ++ after)) first.line last = bodyLines inside := by
  obtain ⟨-, hfirst, hbefore⟩ := List.pairwise_append.mp h
  have hafterFirst := (List.pairwise_cons.mp hfirst).1
  have hup : ∀ b ∈ bodyLines (before ++ [first]), ¬ (first.line < b.line ∧ b.line < last) := by
    intro b hb
    obtain ⟨tagged, hmem, hline⟩ := exists_mem_of_mem_bodyLines hb
    rcases List.mem_append.mp hmem with hmem | hmem
    · have := hbefore tagged hmem first List.mem_cons_self
      omega
    · rw [List.mem_singleton.mp hmem] at hline
      omega
  have hin : ∀ b ∈ bodyLines inside, first.line < b.line ∧ b.line < last := by
    intro b hb
    obtain ⟨tagged, hmem, hline⟩ := exists_mem_of_mem_bodyLines hb
    rw [← hline]
    exact ⟨hafterFirst tagged (List.mem_append_left _ hmem), hinside tagged hmem⟩
  have hdown : ∀ b ∈ bodyLines after, ¬ (first.line < b.line ∧ b.line < last) := by
    intro b hb
    obtain ⟨tagged, hmem, hline⟩ := exists_mem_of_mem_bodyLines hb
    have := hafter tagged hmem
    omega
  rw [show before ++ first :: (inside ++ after) = (before ++ [first]) ++ inside ++ after by simp,
    bodyBetween, bodyLines_append, bodyLines_append, List.filter_append, List.filter_append,
    List.filter_eq_nil_iff.mpr (by simpa using hup), List.filter_eq_self.mpr (by simpa using hin),
    List.filter_eq_nil_iff.mpr (by simpa using hdown), List.nil_append, List.append_nil]

/-- Between two lines of a file stand the comments of the lines between them. -/
theorem bodyBetween_append {before inside after : List TaggedLine} {first last : TaggedLine}
    (h : Numbered (before ++ first :: (inside ++ last :: after))) :
    bodyBetween (before ++ first :: (inside ++ last :: after)) first.line last.line = bodyLines inside := by
  obtain ⟨-, hlast, hbetween⟩ :=
    List.pairwise_append.mp (List.pairwise_cons.mp (List.pairwise_append.mp h).2.1).2
  refine bodyBetween_eq_bodyLines h (fun tagged hmem => hbetween tagged hmem last List.mem_cons_self) ?_
  intro tagged hmem
  rcases List.mem_cons.mp hmem with rfl | hmem
  · exact Nat.le_refl _
  · exact Nat.le_of_lt ((List.pairwise_cons.mp hlast).1 tagged hmem)

theorem bodyLines_eq_concat {lines : List TaggedLine} {initial : List BodyLine} {last : BodyLine}
    (h : bodyLines lines = initial ++ [last]) :
    ∃ inside c later, lines = inside ++ ⟨last.line, .comment c⟩ :: later ∧ bodyLines inside = initial ∧
      last = ⟨last.line, c.column, c.text⟩ := by
  obtain ⟨inside, rest, rfl, hinside, hrest⟩ := List.filterMap_eq_append_iff.mp h
  obtain ⟨others, ⟨line, tag⟩, later, rfl, hothers, hlast, -⟩ := List.filterMap_eq_cons_iff.mp hrest
  have hnone : bodyLines others = [] := List.filterMap_eq_nil_iff.mpr hothers
  cases tag with
  | comment c =>
      cases hlast
      refine ⟨inside ++ others, c, later, by simp, ?_, rfl⟩
      rw [bodyLines_append, hnone, List.append_nil]
      exact hinside
  | code text => cases hlast
  | blank => cases hlast

namespace Block

variable {before after : List TaggedLine} {block : Block}

theorem not_closesBlock_of_mem_interior (h : Numbered (before ++ block.lines ++ after)) {line : Nat}
    {c : Comment} (hmem : ⟨line, .comment c⟩ ∈ block.interior) :
    ¬ ClosesBlock (before ++ block.lines ++ after) block.kind block.line line c := by
  intro hcloses
  obtain ⟨inside, rest, hinterior⟩ := List.append_of_mem hmem
  have hsplit : before ++ block.lines ++ after = before ++ ⟨block.line, .comment block.opener⟩ ::
      (inside ++ ⟨line, .comment c⟩ :: (rest ++ after)) := by
    simp [lines, hinterior]
  have hends := hcloses.ends
  rw [hsplit] at h hends
  rw [bodyBetween_append h] at hends
  refine block.staysOpen _ c.text ((bodyLines rest).map BodyLine.text) ?_ hends
  rw [hinterior, bodyLines_append, List.map_append]
  rfl

theorem mem_interior_of_lt (h : Numbered (before ++ block.lines ++ after))
    {tagged : TaggedLine} (hmem : tagged ∈ before ++ block.lines ++ after) (hafter : tagged ∉ after)
    (hlt : block.line < tagged.line) : tagged ∈ block.interior := by
  rcases List.mem_append.mp hmem with hmem | hmem
  · rcases List.mem_append.mp hmem with hmem | hmem
    · have hbefore := (List.pairwise_append.mp (List.pairwise_append.mp h).1).2.2
      exact absurd (hbefore tagged hmem _ List.mem_cons_self) (Nat.lt_asymm hlt)
    · rcases List.mem_cons.mp hmem with rfl | hmem
      · exact absurd hlt (Nat.lt_irrefl _)
      · exact hmem
  · exact absurd hmem hafter

theorem isCode_of_mem_lines {tagged : TaggedLine} (h : tagged ∈ block.lines) : tagged.isCode = false := by
  rcases List.mem_cons.mp h with rfl | h
  · rfl
  · exact block.noCode tagged h

theorem bodyBetween_body {next : TaggedLine} (h : Numbered (before ++ block.lines ++ next :: after)) :
    bodyBetween (before ++ block.lines ++ next :: after) block.line next.line = block.body := by
  have hsplit : before ++ block.lines ++ next :: after =
      before ++ ⟨block.line, .comment block.opener⟩ :: (block.interior ++ next :: after) := by
    simp [lines]
  rw [hsplit] at h ⊢
  exact bodyBetween_append h

theorem mem_interior_of_lt_next {next tagged : TaggedLine}
    (h : Numbered (before ++ block.lines ++ next :: after))
    (hmem : tagged ∈ before ++ block.lines ++ next :: after) (hlow : block.line < tagged.line)
    (hhigh : tagged.line < next.line) : tagged ∈ block.interior := by
  have hnext := (List.pairwise_cons.mp (List.pairwise_append.mp h).2.1).1
  refine mem_interior_of_lt h hmem ?_ hlow
  intro hafter
  rcases List.mem_cons.mp hafter with rfl | hafter
  · exact absurd hhigh (Nat.lt_irrefl _)
  · exact absurd (hnext tagged hafter) (Nat.lt_asymm hhigh)

theorem closesBlock_closer {line : Nat} {closer : Comment}
    (h : Numbered (before ++ block.lines ++ ⟨line, .comment closer⟩ :: after))
    (hends : block.kind.EndsAt (block.body.map BodyLine.text) closer.text) :
    ClosesBlock (before ++ block.lines ++ ⟨line, .comment closer⟩ :: after) block.kind block.line line
      closer := by
  obtain ⟨-, -, hacross⟩ := List.pairwise_append.mp h
  refine ⟨List.mem_append_right _ List.mem_cons_self, ?_, ?_, ?_⟩
  · exact hacross _ (List.mem_append_right _ List.mem_cons_self) _ List.mem_cons_self
  · intro tagged hmem hlow hhigh
    exact block.noCode tagged (mem_interior_of_lt_next h hmem hlow hhigh)
  · rw [bodyBetween_body h]
    exact hends

/-- Nothing closes a block that ends at a code line or at the end of the file. -/
theorem not_closesBlock_of_cutOff (h : Numbered (before ++ block.lines ++ after))
    (hstop : after.head?.all TaggedLine.isCode = true) (line : Nat) (c : Comment) :
    ¬ ClosesBlock (before ++ block.lines ++ after) block.kind block.line line c := by
  intro hcloses
  by_cases hmem : ⟨line, .comment c⟩ ∈ after
  · obtain ⟨-, hafter, hacross⟩ := List.pairwise_append.mp h
    cases after with
    | nil => cases hmem
    | cons code rest =>
        have hcode : code.isCode = true := hstop
        rcases List.mem_cons.mp hmem with rfl | hmem
        · cases hcode
        · have hlow := hacross _ (List.mem_append_right _ List.mem_cons_self) code List.mem_cons_self
          have hhigh := (List.pairwise_cons.mp hafter).1 _ hmem
          rw [hcloses.noCode code (List.mem_append_right _ List.mem_cons_self) hlow hhigh] at hcode
          cases hcode
  · exact not_closesBlock_of_mem_interior h (mem_interior_of_lt h hcloses.mem hmem hcloses.lt) hcloses

/-- The body of a block ends with its last comment line, and what comes before stands between the opener
and that line. -/
theorem body_eq_concat (h : Numbered (before ++ block.lines ++ after)) (hbody : block.body ≠ []) :
    ∃ c, ⟨block.lastLine, .comment c⟩ ∈ block.interior ∧
      block.body = bodyBetween (before ++ block.lines ++ after) block.line block.lastLine ++
        [⟨block.lastLine, c.column, c.text⟩] := by
  obtain ⟨inside, c, later, hinterior, hinside, hlast⟩ :=
    bodyLines_eq_concat (List.dropLast_concat_getLast hbody).symm
  rw [← lastLine_eq hbody] at hinterior hlast
  have hsplit : before ++ block.lines ++ after = before ++ ⟨block.line, .comment block.opener⟩ ::
      (inside ++ ⟨block.lastLine, .comment c⟩ :: (later ++ after)) := by
    simp [lines, hinterior]
  refine ⟨c, hinterior ▸ List.mem_append_right _ List.mem_cons_self, ?_⟩
  rw [hsplit] at h ⊢
  rw [bodyBetween_append h, hinside, ← hlast]
  exact (List.dropLast_concat_getLast hbody).symm

end Block

namespace Part

variable {before after : List TaggedLine} {part : Part} {note : Note}

/-- A line in the range of a note belongs to the part that makes the note. -/
theorem Makes.mem_lines_of_range (h : part.Makes note)
    (hlines : Numbered (before ++ part.lines ++ after)) :
    ∀ tagged ∈ before ++ part.lines ++ after, note.startLine ≤ tagged.line → tagged.line ≤ note.endLine →
      tagged ∈ part.lines := by
  intro tagged hmem hlow hhigh
  obtain ⟨hupper, -, hafter⟩ := List.pairwise_append.mp hlines
  obtain ⟨-, -, hbefore⟩ := List.pairwise_append.mp hupper
  obtain ⟨first, hfirst, hstart⟩ := h.exists_mem_startLine
  obtain ⟨last, hlast, hend⟩ := h.exists_mem_endLine
  rcases List.mem_append.mp hmem with hmem | hmem
  · rcases List.mem_append.mp hmem with hmem | hmem
    · have hlt := hbefore tagged hmem first hfirst
      omega
    · exact hmem
  · have hlt := hafter last (List.mem_append_right _ hlast) tagged hmem
    omega

theorem exactBlock_closed {block : Block} {line : Nat} {closer : Comment}
    (hends : block.kind.EndsAt (block.body.map BodyLine.text) closer.text) (hbody : block.body ≠ [])
    (hlines : Numbered (before ++ (Part.closed block line closer hends).lines ++ after)) :
    Note.ExactBlock ⟨block.kind.noteKind, block.line, line, block.body, none⟩ block.kind
      (before ++ (Part.closed block line closer hends).lines ++ after) := by
  have hrange := (Makes.closed hends hbody).mem_lines_of_range hlines
  have hsplit : before ++ (Part.closed block line closer hends).lines ++ after =
      before ++ block.lines ++ ⟨line, .comment closer⟩ :: after := by
    simp [Part.lines]
  rw [hsplit] at hlines hrange ⊢
  have hcloses := Block.closesBlock_closer hlines hends
  have hbetween := Block.bodyBetween_body hlines
  constructor
  · exact ⟨block.opener, List.mem_append_left _ (List.mem_append_right _ List.mem_cons_self), block.opens⟩
  · intro tagged hmem hlow hhigh
    rcases List.mem_append.mp (hrange tagged hmem hlow hhigh) with hmem | hmem
    · exact Block.isCode_of_mem_lines hmem
    · rw [List.mem_singleton.mp hmem]
      rfl
  · rintro -
    refine ⟨⟨closer, hcloses⟩, fun earlier c hlt hearlier => ?_, hbetween.symm, fun b hb => ?_⟩
    · have hinside := Block.mem_interior_of_lt_next hlines hearlier.mem hearlier.lt hlt
      exact Block.not_closesBlock_of_mem_interior hlines hinside hearlier
    · change b ∈ block.body at hb
      rw [← hbetween, bodyBetween, List.mem_filter, decide_eq_true_eq] at hb
      exact Nat.ne_of_lt hb.2.2
  · intro hnone
    exact absurd ⟨line, closer, hcloses⟩ hnone

theorem exactBlock_cutOff {block : Block} (hbody : block.body ≠ [])
    (hlines : Numbered (before ++ (Part.cutOff block).lines ++ after))
    (hstop : after.head?.all TaggedLine.isCode = true) :
    Note.ExactBlock ⟨block.kind.noteKind, block.line, block.lastLine, block.body, none⟩ block.kind
      (before ++ (Part.cutOff block).lines ++ after) := by
  have hrange := (Makes.cutOff hbody).mem_lines_of_range hlines
  change Numbered (before ++ block.lines ++ after) at hlines
  constructor
  · exact ⟨block.opener, List.mem_append_left _ (List.mem_append_right _ List.mem_cons_self), block.opens⟩
  · intro tagged hmem hlow hhigh
    exact Block.isCode_of_mem_lines (hrange tagged hmem hlow hhigh)
  · rintro ⟨line, c, hcloses⟩
    exact absurd hcloses (Block.not_closesBlock_of_cutOff hlines hstop line c)
  · rintro -
    obtain ⟨c, hmem, hconcat⟩ := Block.body_eq_concat hlines hbody
    have hlast := List.mem_cons_of_mem ⟨block.line, .comment block.opener⟩ hmem
    exact ⟨c, List.mem_append_left _ (List.mem_append_right _ hlast), hconcat⟩

theorem Makes.exactBlock (h : part.Makes note)
    (hlines : Numbered (before ++ part.lines ++ after))
    (hstop : part.isCutOff = true → after.head?.all TaggedLine.isCode = true) {kind : BlockKind}
    (hkind : note.kind = kind.noteKind) : note.ExactBlock kind (before ++ part.lines ++ after) := by
  cases h with
  | marked h hrole => cases kind <;> cases hkind
  | closed h hbody =>
      cases BlockKind.noteKind_injective hkind
      exact exactBlock_closed h hbody hlines
  | cutOff hbody =>
      cases BlockKind.noteKind_injective hkind
      exact exactBlock_cutOff hbody hlines (hstop rfl)

end Part

theorem Divides.exactBlock {parts : List Part} {lines : List TaggedLine} {found : Findings}
    (h : Divides parts lines found) (hlines : Numbered lines) {note : Note} (hnote : note ∈ found.notes)
    {kind : BlockKind} (hkind : note.kind = kind.noteKind) : note.ExactBlock kind lines := by
  obtain ⟨before, part, after, hsplit, hmade, hstop⟩ := h.exists_part hnote
  rw [hsplit] at hlines ⊢
  exact hmade.exactBlock hlines hstop hkind

/-- The body of a block holds the comment lines between its opener and its closer, each unchanged and in
order; a block that no line closes ends with its last comment line, which belongs to the body. -/
theorem extractWith_exactBlock (source : Source) (style : CommentStyle) {note : Note}
    (hnote : note ∈ (source.extractWith style).findings.notes) {kind : BlockKind}
    (hkind : note.kind = kind.noteKind) : note.ExactBlock kind (style.tagLines source.lines) := by
  obtain ⟨bare, hbare, rfl⟩ := List.mem_map.mp hnote
  obtain ⟨parts, hparts⟩ := exists_divides (style.tagLines source.lines)
  obtain ⟨before, part, after, hlines, hmade, hstop⟩ := hparts.exists_part hbare
  have hordered := style.numbered_tagLines source.lines
  rw [hlines] at hordered ⊢
  have hexact := hmade.exactBlock hordered hstop hkind
  exact ⟨hexact.opener, hexact.noCode, hexact.closed, hexact.cutOff⟩

/-- A brace block with a further level inside it, and a collection that the end of the file cuts off. -/
theorem extractWith_exactBlock_nested :
    Note.ExactBlock ⟨.brace, 1, 6, [⟨2, 2, "TODO: a"⟩, ⟨4, 2, ['{']⟩, ⟨5, 2, ['}']⟩], some ⟨7, "x"⟩⟩ .brace
        (CommentStyle.tagLines { leaders := ["#"] } (Source.new "a.py" "python"
          "# TODO: \x7b\n# TODO: a\n\n# \x7b\n# \x7d\n# \x7d\nx").lines) ∧
      Note.ExactBlock ⟨.collection, 2, 4, [⟨4, 3, "b"⟩], none⟩ .collection
        (CommentStyle.tagLines { block := some ⟨"/*", "*/"⟩ } (Source.new "a.c" "c"
          "x\n/* TODOS.START */\n\n/* b\n").lines) :=
  ⟨extractWith_exactBlock _ _ (by decide) rfl, extractWith_exactBlock _ _ (by decide) rfl⟩

end Marginalia
