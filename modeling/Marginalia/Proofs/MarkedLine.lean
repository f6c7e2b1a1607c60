import Marginalia.Proofs.Order

/-! Marked lines are neither lost nor doubled. A comment line with a keyword ends up in exactly one note,
once: on its own, as the note it makes, or inside a block, as a line of the body. Every marker note in turn
comes from such a line. That the line is there follows from the part of the file it lies in; that it is
there once, from the order of the notes. -/

namespace Marginalia

/-- The note is what a marked line alone makes. -/
structure Note.IsMarked (note : Note) (line : Nat) (c : Comment) (keyword : Keyword) (text : Text)
    (offset : Nat) : Prop where
  kind : note.kind = .marker keyword
  start : note.startLine = line
  stop : note.endLine = line
  body : note.body = [⟨line, c.column + offset, text⟩]

/-- The note is a block that has the whole comment on a line in its body, and that line once. -/
structure Note.Quotes (note : Note) (line : Nat) (c : Comment) : Prop where
  isBlock : note.kind.isBlock = true
  body : ∃ above below, note.body = above ++ ⟨line, c.column, c.text⟩ :: below ∧
    ∀ b ∈ above ++ below, b.line ≠ line

/-- Marked lines and notes correspond: each marked line is found in one note and no other, and each marker
note is found at a marked line. -/
structure Findings.KeepsMarked (found : Findings) (lines : List TaggedLine) : Prop where
  once : ∀ line c keyword text offset, ⟨line, .comment c⟩ ∈ lines →
    Role.ofText c.text = .marker keyword text offset →
    ∃ before note after, found.notes = before ++ note :: after ∧
      (note.IsMarked line c keyword text offset ∨ note.Quotes line c) ∧
      ∀ other ∈ before ++ after, ∀ b ∈ other.body, b.line ≠ line
  only : ∀ note ∈ found.notes, ∀ keyword, note.kind = .marker keyword →
    ∃ line c text offset, ⟨line, .comment c⟩ ∈ lines ∧
      Role.ofText c.text = .marker keyword text offset ∧ note.IsMarked line c keyword text offset

theorem Note.WellFormed.line_of_mem_body {note : Note} {count : Nat} (h : note.WellFormed count) {b : BodyLine}
    (hb : b ∈ note.body) : note.startLine ≤ b.line ∧ b.line ≤ note.endLine := by
  cases hkind : note.kind with
  | marker keyword =>
      obtain ⟨hrange, only, hbody, hline⟩ := h.marker keyword hkind
      rw [hbody] at hb
      cases List.mem_singleton.mp hb
      omega
  | brace =>
      obtain ⟨-, -, hrange⟩ := h.block (by rw [hkind]; rfl)
      have := hrange b hb
      omega
  | collection =>
      obtain ⟨-, -, hrange⟩ := h.block (by rw [hkind]; rfl)
      have := hrange b hb
      omega

/-- A line of one note's body is in no other note's body. -/
theorem Findings.WellFormed.line_ne_of_mem_body {found : Findings} {count : Nat} (h : found.WellFormed count)
    {before after : List Note} {note : Note} (hnotes : found.notes = before ++ note :: after) {b : BodyLine}
    (hb : b ∈ note.body) : ∀ other ∈ before ++ after, ∀ b' ∈ other.body, b'.line ≠ b.line := by
  have hapart := h.apart
  have hwell := h.notes
  rw [hnotes] at hapart hwell
  obtain ⟨-, hfrom, hbefore⟩ := List.pairwise_append.mp hapart
  have hafter := (List.pairwise_cons.mp hfrom).1
  have hrange := (hwell note (List.mem_append_right _ List.mem_cons_self)).line_of_mem_body hb
  intro other hother b' hb'
  rcases List.mem_append.mp hother with hother | hother
  · have hrange' := (hwell other (List.mem_append_left _ hother)).line_of_mem_body hb'
    have hlt := hbefore other hother note List.mem_cons_self
    omega
  · have hmem := List.mem_append_right before (List.mem_cons_of_mem note hother)
    have hrange' := (hwell other hmem).line_of_mem_body hb'
    have hlt := hafter other hother
    omega

theorem Note.WellFormed.quotes {note : Note} {count : Nat} (h : note.WellFormed count) {line : Nat}
    {c : Comment} (hblock : note.kind.isBlock = true) (hmem : ⟨line, c.column, c.text⟩ ∈ note.body) :
    note.Quotes line c := by
  obtain ⟨above, below, hbody⟩ := List.append_of_mem hmem
  obtain ⟨-, hordered, -⟩ := h.block hblock
  rw [hbody] at hordered
  obtain ⟨-, hfrom, habove⟩ := List.pairwise_append.mp hordered
  refine ⟨hblock, above, below, hbody, fun b hb => ?_⟩
  rcases List.mem_append.mp hb with hb | hb
  · exact Nat.ne_of_lt (habove b hb _ List.mem_cons_self)
  · exact Nat.ne_of_gt ((List.pairwise_cons.mp hfrom).1 b hb)

namespace Part

theorem mem_body_of_marked {block : Block} {line : Nat} {c : Comment} {keyword : Keyword} {text : Text}
    {offset : Nat} (hmem : ⟨line, .comment c⟩ ∈ block.lines)
    (hrole : Role.ofText c.text = .marker keyword text offset) : ⟨line, c.column, c.text⟩ ∈ block.body :=
  Block.mem_body_of_ne_opening hmem fun hopening =>
    block.kind.opening_ne_marker keyword text offset (hopening.symm.trans hrole)

/-- A part with a marked line makes a note of it. -/
theorem exists_makes_of_marked {part : Part} {line : Nat} {c : Comment} {keyword : Keyword} {text : Text}
    {offset : Nat} (hmem : ⟨line, .comment c⟩ ∈ part.lines)
    (hrole : Role.ofText c.text = .marker keyword text offset) :
    ∃ note, part.Makes note ∧ (note.IsMarked line c keyword text offset ∨
      note.kind.isBlock = true ∧ ⟨line, c.column, c.text⟩ ∈ note.body) := by
  cases part with
  | lone tagged h =>
      cases List.mem_singleton.mp hmem
      exact ⟨_, .marked h hrole, .inl ⟨rfl, rfl, rfl, rfl⟩⟩
  | closed block closerLine closer h =>
      rcases List.mem_append.mp hmem with hmem | hcloser
      · have hbody := mem_body_of_marked hmem hrole
        exact ⟨_, .closed h (List.ne_nil_of_mem hbody), .inr ⟨block.kind.isBlock_noteKind, hbody⟩⟩
      · cases List.mem_singleton.mp hcloser
        exact absurd (h.1.symm.trans hrole) (block.kind.closing_ne_marker keyword text offset)
  | cutOff block =>
      have hbody := mem_body_of_marked hmem hrole
      exact ⟨_, .cutOff (List.ne_nil_of_mem hbody), .inr ⟨block.kind.isBlock_noteKind, hbody⟩⟩

theorem Makes.exists_marked {part : Part} {note : Note} (h : part.Makes note) {keyword : Keyword}
    (hkind : note.kind = .marker keyword) :
    ∃ line c text offset, ⟨line, .comment c⟩ ∈ part.lines ∧
      Role.ofText c.text = .marker keyword text offset ∧ note.IsMarked line c keyword text offset := by
  cases h with
  | marked h hrole =>
      cases hkind
      exact ⟨_, _, _, _, List.mem_singleton_self _, hrole, rfl, rfl, rfl, rfl⟩
  | closed h hbody => exact absurd hkind (BlockKind.noteKind_ne_marker _ keyword)
  | cutOff hbody => exact absurd hkind (BlockKind.noteKind_ne_marker _ keyword)

end Part

theorem Divides.keepsMarked {parts : List Part} {lines : List TaggedLine} {found : Findings} {count : Nat}
    (h : Divides parts lines found) (hwell : found.WellFormed count) : found.KeepsMarked lines := by
  constructor
  · intro line c keyword text offset hmem hrole
    rw [h.lines_eq] at hmem
    obtain ⟨part, hpart, hmem⟩ := List.mem_flatMap.mp hmem
    obtain ⟨note, hmade, hfound⟩ := Part.exists_makes_of_marked hmem hrole
    have hnote : note ∈ found.notes := by
      rw [h.notes_eq]
      exact List.mem_flatMap.mpr ⟨part, hpart, hmade.mem_notes⟩
    obtain ⟨before, after, hnotes⟩ := List.append_of_mem hnote
    refine ⟨before, note, after, hnotes, ?_⟩
    rcases hfound with hmarked | ⟨hblock, hbody⟩
    · refine ⟨Or.inl hmarked, hwell.line_ne_of_mem_body hnotes (b := ⟨line, c.column + offset, text⟩) ?_⟩
      rw [hmarked.body]
      exact List.mem_singleton_self _
    · exact ⟨Or.inr ((hwell.notes note hnote).quotes hblock hbody), hwell.line_ne_of_mem_body hnotes hbody⟩
  · intro note hnote keyword hkind
    rw [h.notes_eq] at hnote
    obtain ⟨part, hpart, hnote⟩ := List.mem_flatMap.mp hnote
    obtain ⟨line, c, text, offset, hmem, hrole, hmarked⟩ :=
      (Part.makes_of_mem_notes hnote).exists_marked hkind
    refine ⟨line, c, text, offset, ?_, hrole, hmarked⟩
    rw [h.lines_eq]
    exact List.mem_flatMap.mpr ⟨part, hpart, hmem⟩

theorem Findings.KeepsMarked.anchored {found : Findings} {lines : List TaggedLine} (h : found.KeepsMarked lines)
    (others : List TaggedLine) : (found.anchored others).KeepsMarked lines := by
  let f : Note → Note := fun note => { note with anchor := anchorAfter (anchorIndex others) note.endLine }
  constructor
  · intro line c keyword text offset hmem hrole
    obtain ⟨before, note, after, hnotes, hfound, hother⟩ := h.once line c keyword text offset hmem hrole
    refine ⟨before.map f, f note, after.map f, ?_, ?_, ?_⟩
    · rw [Findings.anchored, hnotes, List.map_append, List.map_cons]
    · exact hfound.imp (fun hm => ⟨hm.kind, hm.start, hm.stop, hm.body⟩) fun hq => ⟨hq.isBlock, hq.body⟩
    · intro other hmem
      rw [← List.map_append] at hmem
      obtain ⟨bare, hbare, rfl⟩ := List.mem_map.mp hmem
      exact hother bare hbare
  · intro note hnote keyword hkind
    obtain ⟨bare, hbare, rfl⟩ := List.mem_map.mp hnote
    obtain ⟨line, c, text, offset, hmem, hrole, hm⟩ := h.only bare hbare keyword hkind
    exact ⟨line, c, text, offset, hmem, hrole, hm.kind, hm.start, hm.stop, hm.body⟩

/-- Every marked line of a file is found in one note, once, whatever stands around it, and every marker
note is such a line. -/
theorem extractWith_keepsMarked (source : Source) (style : CommentStyle) :
    (source.extractWith style).findings.KeepsMarked (style.tagLines source.lines) := by
  obtain ⟨parts, hparts⟩ := exists_divides (style.tagLines source.lines)
  exact (hparts.keepsMarked (assemble_wellFormed style source.lines)).anchored _

/-- A marked line inside a block that is never closed, after another one outside. -/
theorem extractWith_keepsMarked_cutOff :
    Role.ofText "FIXME: é" = .marker .fixme "é" 7 ∧
      ∃ before note after,
        ((Source.new "a.py" "python" "# XXX: a\n# TODO: \x7b\n\n  # FIXME: é\nx").extractWith
          { leaders := ["#"] }).findings.notes = before ++ note :: after ∧
        (note.IsMarked 4 ⟨"FIXME: é", 4, 1⟩ .fixme "é" 7 ∨ note.Quotes 4 ⟨"FIXME: é", 4, 1⟩) ∧
        ∀ other ∈ before ++ after, ∀ b ∈ other.body, b.line ≠ 4 :=
  ⟨by decide, (extractWith_keepsMarked _ _).once 4 ⟨"FIXME: é", 4, 1⟩ .fixme "é" 7 (by decide) (by decide)⟩

end Marginalia
