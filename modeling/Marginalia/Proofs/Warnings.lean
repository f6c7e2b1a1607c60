import Marginalia.Proofs.BlockBody

/-! What warnings mean. Each kind of warning is explained by the tagged lines around it, and nothing that
deserves one goes without: a block is reported as unterminated exactly when no line closes it, and every
line that can close a block is used in exactly one way, in a body, as the end of a block with or without a
body, or not at all, which is reported. A warning and a note that concern the same line come from the same
part of the file, so each statement is read off a single part. -/

namespace Marginalia

/-- Line `line` closes the block that line `start` opens, with nothing but blank lines between them. -/
structure ClosesEmpty (lines : List TaggedLine) (kind : BlockKind) (start line : Nat) : Prop where
  opener : ∃ c, ⟨start, .comment c⟩ ∈ lines ∧ Role.ofText c.text = kind.opening
  closer : ∃ c, ⟨line, .comment c⟩ ∈ lines ∧ Role.ofText c.text = kind.closing
  lt : start < line
  blank : ∀ tagged ∈ lines, start < tagged.line → tagged.line < line → tagged.tag = .blank

/-- The ways in which a line that can close a block is used. -/
inductive CloserUse where
  | body
  | closing
  | closingEmpty
  | stray
  deriving DecidableEq

def CloserUse.Holds (found : Findings) (lines : List TaggedLine) (line : Nat) (c : Comment) : CloserUse → Prop
  | .body => ∃ note ∈ found.notes, note.kind.isBlock = true ∧ ⟨line, c.column, c.text⟩ ∈ note.body
  | .closing => ∃ note ∈ found.notes, ∃ kind : BlockKind, note.kind = kind.noteKind ∧ note.endLine = line ∧
      ClosesBlock lines kind note.startLine line c
  | .closingEmpty => ∃ start kind, ⟨.emptyBlock, start⟩ ∈ found.warnings ∧ ClosesEmpty lines kind start line
  | .stray => ⟨.strayCloser, line⟩ ∈ found.warnings

/-- Warnings as they should be: each has its reason in the lines, and each reason has its warning. -/
structure Findings.Explained (found : Findings) (lines : List TaggedLine) : Prop where
  unterminated : ∀ note ∈ found.notes, ∀ kind : BlockKind, note.kind = kind.noteKind →
    (⟨.unterminatedBlock, note.startLine⟩ ∈ found.warnings ↔
      note.body.getLast?.map BodyLine.line = some note.endLine) ∧
    (⟨.unterminatedBlock, note.startLine⟩ ∈ found.warnings ↔
      ¬ ∃ line c, ClosesBlock lines kind note.startLine line c)
  unterminatedAlone : ∀ line, ⟨.unterminatedBlock, line⟩ ∈ found.warnings →
    (∀ note ∈ found.notes, note.startLine ≠ line) →
    (∃ c kind, ⟨line, .comment c⟩ ∈ lines ∧ Role.ofText c.text = BlockKind.opening kind) ∧
      ∀ later c, ⟨later, .comment c⟩ ∈ lines → line < later →
        ∃ code ∈ lines, code.isCode = true ∧ line < code.line ∧ code.line < later
  emptyBlock : ∀ line, ⟨.emptyBlock, line⟩ ∈ found.warnings →
    (∃ kind closer, ClosesEmpty lines kind line closer) ∧ ∀ note ∈ found.notes, note.startLine ≠ line
  strayCloser : ∀ line, ⟨.strayCloser, line⟩ ∈ found.warnings →
    (∃ c kind, ⟨line, .comment c⟩ ∈ lines ∧ Role.ofText c.text = BlockKind.closing kind) ∧
      ∀ note ∈ found.notes, ¬ (note.startLine ≤ line ∧ line ≤ note.endLine)
  closers : ∀ line c (kind : BlockKind), ⟨line, .comment c⟩ ∈ lines → Role.ofText c.text = kind.closing →
    ∃! use : CloserUse, use.Holds found lines line c

theorem Note.ExactBlock.getLast?_body_iff {note : Note} {kind : BlockKind} {lines : List TaggedLine}
    (h : note.ExactBlock kind lines) : note.body.getLast?.map BodyLine.line = some note.endLine ↔
      ¬ ∃ line c, ClosesBlock lines kind note.startLine line c := by
  constructor
  · intro hlast hcloses
    obtain ⟨last, hmem, hline⟩ := Option.map_eq_some_iff.mp hlast
    exact (h.closed hcloses).2.2.2 last (List.mem_of_getLast? hmem) hline
  · intro hopen
    obtain ⟨c, -, hbody⟩ := h.cutOff hopen
    rw [hbody, List.getLast?_concat]
    rfl

theorem ClosesEmpty.line_unique {lines : List TaggedLine} {kind other : BlockKind} {start line later : Nat}
    (h : ClosesEmpty lines kind start line) (hother : ClosesEmpty lines other start later) : line = later := by
  obtain ⟨c, hmem, -⟩ := h.closer
  obtain ⟨d, hmem', -⟩ := hother.closer
  rcases Nat.lt_trichotomy line later with hlt | heq | hlt
  · cases hother.blank _ hmem h.lt hlt
  · exact heq
  · cases h.blank _ hmem' hother.lt hlt

theorem BlockKind.opening_ne_closing (kind other : BlockKind) : kind.opening ≠ other.closing := by
  cases kind <;> cases other <;> exact nofun

theorem Block.mem_body_of_closer {block : Block} {line : Nat} {c : Comment} {kind : BlockKind}
    (hmem : ⟨line, .comment c⟩ ∈ block.lines) (hrole : Role.ofText c.text = kind.closing) :
    ⟨line, c.column, c.text⟩ ∈ block.body :=
  mem_body_of_ne_opening hmem fun hopening => block.kind.opening_ne_closing kind (hopening.symm.trans hrole)

theorem Block.tag_eq_blank {block : Block} (hbody : block.body = []) {tagged : TaggedLine}
    (h : tagged ∈ block.interior) : tagged.tag = .blank := by
  obtain ⟨line, tag⟩ := tagged
  cases tag with
  | blank => rfl
  | code text => cases block.noCode _ h
  | comment c =>
      have hmem : ⟨line, c.column, c.text⟩ ∈ block.body := mem_bodyLines.mpr ⟨c, h, rfl⟩
      rw [hbody] at hmem
      cases hmem

namespace Part.Warns

variable {part : Part} {line : Nat}

theorem exists_cutOff (h : part.Warns ⟨.unterminatedBlock, line⟩) :
    ∃ block, part = .cutOff block ∧ block.line = line := by
  cases h with
  | cutOff => exact ⟨_, rfl, rfl⟩

theorem exists_closed (h : part.Warns ⟨.emptyBlock, line⟩) :
    ∃ block closerLine closer hends, part = .closed block closerLine closer hends ∧ block.line = line ∧
      block.body = [] := by
  cases h with
  | empty hends hbody => exact ⟨_, _, _, hends, rfl, rfl, hbody⟩

theorem exists_lone (h : part.Warns ⟨.strayCloser, line⟩) :
    ∃ c hlone kind, part = .lone ⟨line, .comment c⟩ hlone ∧ Role.ofText c.text = BlockKind.closing kind := by
  cases h with
  | stray hlone kind hrole => exact ⟨_, hlone, kind, rfl, hrole⟩

end Part.Warns

/-- How a part uses a line of it that can close a block. -/
def Part.closerUse (part : Part) (line : Nat) : CloserUse :=
  match part with
  | .lone _ _ => .stray
  | .closed block closerLine _ _ =>
    if line = closerLine then (if block.body = [] then .closingEmpty else .closing) else .body
  | .cutOff _ => .body

namespace Divides

variable {parts : List Part} {lines : List TaggedLine} {found : Findings} (h : Divides parts lines found)

include h

theorem mem_lines_of_part {part : Part} (hpart : part ∈ parts)
    {tagged : TaggedLine} (htagged : tagged ∈ part.lines) : tagged ∈ lines := by
  rw [h.lines_eq]
  exact List.mem_flatMap.mpr ⟨part, hpart, htagged⟩

theorem exists_split_closed {block : Block} {line : Nat} {closer : Comment}
    {hends : block.kind.EndsAt (block.body.map BodyLine.text) closer.text}
    (hpart : .closed block line closer hends ∈ parts) :
    ∃ before after, lines = before ++ block.lines ++ ⟨line, .comment closer⟩ :: after := by
  obtain ⟨before, after, hsplit, -⟩ := h.exists_split hpart
  exact ⟨before, after, by rw [hsplit]; simp [Part.lines]⟩

variable (hlines : Numbered lines)

include hlines

/-- A note is made by the part of any line in its range. -/
theorem makes_of_range {part : Part} (hpart : part ∈ parts) {tagged : TaggedLine} (htagged : tagged ∈ part.lines)
    {note : Note} (hnote : note ∈ found.notes) (hlow : note.startLine ≤ tagged.line)
    (hhigh : tagged.line ≤ note.endLine) : part.Makes note := by
  obtain ⟨other, hother, hmade⟩ := h.mem_notes_iff.mp hnote
  obtain ⟨before, after, hsplit, -⟩ := h.exists_split hother
  have hmem := h.mem_lines_of_part hpart htagged
  rw [hsplit] at hmem
  have hsame := hmade.mem_lines_of_range (hsplit ▸ hlines) tagged hmem hlow hhigh
  rw [h.eq_of_line_eq hlines hpart hother htagged hsame rfl]
  exact hmade

theorem makes_of_start {part : Part} (hpart : part ∈ parts) {tagged : TaggedLine} (htagged : tagged ∈ part.lines)
    {note : Note} (hnote : note ∈ found.notes) (hstart : note.startLine = tagged.line) : part.Makes note := by
  obtain ⟨other, hother, hmade⟩ := h.mem_notes_iff.mp hnote
  have hle := hmade.start_le_end ((h.pairwise_parts hlines).1 other hother)
  exact h.makes_of_range hlines hpart htagged hnote (Nat.le_of_eq hstart) (hstart ▸ hle)

theorem unterminated_iff {note : Note} (hnote : note ∈ found.notes) {kind : BlockKind}
    (hkind : note.kind = kind.noteKind) :
    ⟨.unterminatedBlock, note.startLine⟩ ∈ found.warnings ↔
      ¬ ∃ line c, ClosesBlock lines kind note.startLine line c := by
  constructor
  · rintro hwarning ⟨line, c, hcloses⟩
    obtain ⟨part, hpart, hwarns⟩ := h.mem_warnings_iff.mp hwarning
    obtain ⟨block, rfl, hstart⟩ := hwarns.exists_cutOff
    have hmade := h.makes_of_start hlines hpart List.mem_cons_self hnote hstart.symm
    obtain ⟨before, after, hsplit, hstop⟩ := h.exists_split hpart
    cases hmade with
    | cutOff hbody =>
        cases BlockKind.noteKind_injective hkind
        rw [hsplit] at hlines hcloses
        exact Block.not_closesBlock_of_cutOff hlines (hstop rfl) line c hcloses
  · intro hopen
    obtain ⟨part, hpart, hmade⟩ := h.mem_notes_iff.mp hnote
    cases hmade with
    | marked hlone hrole => exact absurd hkind.symm (kind.noteKind_ne_marker _)
    | @closed block line closer hends hbody =>
        cases BlockKind.noteKind_injective hkind
        obtain ⟨before, after, hsplit⟩ := h.exists_split_closed hpart
        rw [hsplit] at hlines hopen
        exact absurd ⟨line, closer, Block.closesBlock_closer hlines hends⟩ hopen
    | cutOff hbody => exact h.mem_warnings_iff.mpr ⟨_, hpart, .cutOff⟩

theorem unterminated_alone {line : Nat} (hwarning : ⟨.unterminatedBlock, line⟩ ∈ found.warnings)
    (halone : ∀ note ∈ found.notes, note.startLine ≠ line) :
    (∃ c kind, ⟨line, .comment c⟩ ∈ lines ∧ Role.ofText c.text = BlockKind.opening kind) ∧
      ∀ later c, ⟨later, .comment c⟩ ∈ lines → line < later →
        ∃ code ∈ lines, code.isCode = true ∧ line < code.line ∧ code.line < later := by
  obtain ⟨part, hpart, hwarns⟩ := h.mem_warnings_iff.mp hwarning
  obtain ⟨block, rfl, rfl⟩ := hwarns.exists_cutOff
  have hbody : block.body = [] := by
    by_contra hbody
    exact halone _ (h.mem_notes_iff.mpr ⟨_, hpart, .cutOff hbody⟩) rfl
  refine ⟨⟨block.opener, block.kind, h.mem_lines_of_part hpart List.mem_cons_self, block.opens⟩, ?_⟩
  intro later c hmem hlt
  obtain ⟨before, after, hsplit, hstop⟩ := h.exists_split hpart
  change lines = before ++ block.lines ++ after at hsplit
  -- The block has no comment line of its own, so a later one comes after it, and there code comes first.
  have hafter : ⟨later, .comment c⟩ ∈ after := by
    by_contra hafter
    rw [hsplit] at hlines hmem
    cases Block.tag_eq_blank hbody (Block.mem_interior_of_lt hlines hmem hafter hlt)
  cases after with
  | nil => cases hafter
  | cons code rest =>
      have hcode : code.isCode = true := hstop rfl
      rw [hsplit] at hlines ⊢
      obtain ⟨-, hrest, hacross⟩ := List.pairwise_append.mp hlines
      refine ⟨code, List.mem_append_right _ List.mem_cons_self, hcode, ?_, ?_⟩
      · exact hacross _ (List.mem_append_right _ List.mem_cons_self) code List.mem_cons_self
      · rcases List.mem_cons.mp hafter with rfl | hafter
        · cases hcode
        · exact (List.pairwise_cons.mp hrest).1 _ hafter

theorem closesEmpty_of_closed {block : Block} {line : Nat} {closer : Comment}
    {hends : block.kind.EndsAt (block.body.map BodyLine.text) closer.text}
    (hpart : .closed block line closer hends ∈ parts) (hbody : block.body = []) :
    ClosesEmpty lines block.kind block.line line := by
  obtain ⟨before, after, hsplit⟩ := h.exists_split_closed hpart
  rw [hsplit] at hlines ⊢
  have hcloses := Block.closesBlock_closer hlines hends
  refine ⟨⟨block.opener, ?_, block.opens⟩, ⟨closer, hcloses.mem, hends.1⟩, hcloses.lt, ?_⟩
  · exact List.mem_append_left _ (List.mem_append_right _ List.mem_cons_self)
  · intro tagged hmem hlow hhigh
    exact Block.tag_eq_blank hbody (Block.mem_interior_of_lt_next hlines hmem hlow hhigh)

theorem emptyBlock_sound {line : Nat} (hwarning : ⟨.emptyBlock, line⟩ ∈ found.warnings) :
    (∃ kind closer, ClosesEmpty lines kind line closer) ∧ ∀ note ∈ found.notes, note.startLine ≠ line := by
  obtain ⟨part, hpart, hwarns⟩ := h.mem_warnings_iff.mp hwarning
  obtain ⟨block, closerLine, closer, hends, rfl, rfl, hbody⟩ := hwarns.exists_closed
  refine ⟨⟨block.kind, closerLine, h.closesEmpty_of_closed hlines hpart hbody⟩, ?_⟩
  intro note hnote hstart
  cases h.makes_of_start hlines hpart List.mem_cons_self hnote hstart with
  | closed hends hne => exact hne hbody

theorem strayCloser_sound {line : Nat} (hwarning : ⟨.strayCloser, line⟩ ∈ found.warnings) :
    (∃ c kind, ⟨line, .comment c⟩ ∈ lines ∧ Role.ofText c.text = BlockKind.closing kind) ∧
      ∀ note ∈ found.notes, ¬ (note.startLine ≤ line ∧ line ≤ note.endLine) := by
  obtain ⟨part, hpart, hwarns⟩ := h.mem_warnings_iff.mp hwarning
  obtain ⟨c, hlone, kind, rfl, hrole⟩ := hwarns.exists_lone
  refine ⟨⟨c, kind, h.mem_lines_of_part hpart List.mem_cons_self, hrole⟩, ?_⟩
  rintro note hnote ⟨hlow, hhigh⟩
  cases h.makes_of_range hlines hpart List.mem_cons_self hnote hlow hhigh with
  | marked hlone hmarked => exact kind.closing_ne_marker _ _ _ (hrole.symm.trans hmarked)

section Closers

variable {part : Part} {line : Nat} {c : Comment} {kind : BlockKind}

theorem holds_closerUse (hpart : part ∈ parts) (hmem : ⟨line, .comment c⟩ ∈ part.lines)
    (hrole : Role.ofText c.text = kind.closing) :
    (part.closerUse line).Holds found lines line c := by
  have hordered := (h.pairwise_parts hlines).1 part hpart
  cases part with
  | lone tagged hlone =>
      cases List.mem_singleton.mp hmem
      exact h.mem_warnings_iff.mpr ⟨_, hpart, .stray hlone kind hrole⟩
  | cutOff block =>
      have hbody := Block.mem_body_of_closer hmem hrole
      exact ⟨_, h.mem_notes_iff.mpr ⟨_, hpart, .cutOff (List.ne_nil_of_mem hbody)⟩,
        block.kind.isBlock_noteKind, hbody⟩
  | closed block closerLine closer hends =>
      rcases List.mem_append.mp hmem with hblock | hcloser
      · have hlt : line < closerLine :=
          (List.pairwise_append.mp hordered).2.2 _ hblock _ (List.mem_singleton_self _)
        have hbody := Block.mem_body_of_closer hblock hrole
        rw [Part.closerUse, if_neg (Nat.ne_of_lt hlt)]
        exact ⟨_, h.mem_notes_iff.mpr ⟨_, hpart, .closed hends (List.ne_nil_of_mem hbody)⟩,
          block.kind.isBlock_noteKind, hbody⟩
      · cases List.mem_singleton.mp hcloser
        rw [Part.closerUse, if_pos rfl]
        by_cases hbody : block.body = []
        · rw [if_pos hbody]
          exact ⟨block.line, block.kind, h.mem_warnings_iff.mpr ⟨_, hpart, .empty hends hbody⟩,
            h.closesEmpty_of_closed hlines hpart hbody⟩
        · rw [if_neg hbody]
          obtain ⟨before, after, hsplit⟩ := h.exists_split_closed hpart
          refine ⟨_, h.mem_notes_iff.mpr ⟨_, hpart, .closed hends hbody⟩, block.kind, rfl, rfl, ?_⟩
          rw [hsplit] at hlines ⊢
          exact Block.closesBlock_closer hlines hends

theorem eq_closerUse_of_holds (hpart : part ∈ parts) (hmem : ⟨line, .comment c⟩ ∈ part.lines)
    {use : CloserUse} (huse : use.Holds found lines line c) :
    use = part.closerUse line := by
  have hordered := (h.pairwise_parts hlines).1 part hpart
  cases use with
  | body =>
      obtain ⟨note, hnote, hblock, hbody⟩ := huse
      obtain ⟨other, hother, hmade⟩ := h.mem_notes_iff.mp hnote
      obtain ⟨-, -, hrange⟩ := hmade.block_body ((h.pairwise_parts hlines).1 other hother) hblock
      obtain ⟨hlow, hhigh⟩ := hrange _ hbody
      cases h.makes_of_range hlines hpart hmem hnote (Nat.le_of_lt hlow) hhigh with
      | marked hlone hrole => cases hblock
      | cutOff hne => rfl
      | @closed block closerLine closer hends hne =>
          obtain ⟨d, hinterior, -⟩ := mem_bodyLines.mp hbody
          have hlt : line < closerLine := (List.pairwise_append.mp hordered).2.2 _
            (List.mem_cons_of_mem _ hinterior) _ (List.mem_singleton_self _)
          rw [Part.closerUse, if_neg (Nat.ne_of_lt hlt)]
  | closing =>
      obtain ⟨note, hnote, kind, hkind, hend, hcloses⟩ := huse
      have hmade := h.makes_of_range hlines hpart hmem hnote (Nat.le_of_lt hcloses.lt) (Nat.le_of_eq hend.symm)
      cases hmade with
      | marked hlone hrole => exact absurd hkind.symm (kind.noteKind_ne_marker _)
      | closed hends hne => rw [Part.closerUse, if_pos hend.symm, if_neg hne]
      | cutOff hne =>
          have hwarning := h.mem_warnings_iff.mpr ⟨_, hpart, .cutOff⟩
          exact absurd ⟨line, c, hcloses⟩ ((h.unterminated_iff hlines hnote hkind).mp hwarning)
  | closingEmpty =>
      obtain ⟨start, kind, hwarning, hempty⟩ := huse
      obtain ⟨other, hother, hwarns⟩ := h.mem_warnings_iff.mp hwarning
      obtain ⟨block, closerLine, closer, hends, rfl, rfl, hbody⟩ := hwarns.exists_closed
      -- The closer of an empty block is the next comment line after the opener, so it is this line.
      have hline := hempty.line_unique (h.closesEmpty_of_closed hlines hother hbody)
      have hcloser := List.mem_append_right block.lines (List.mem_singleton_self ⟨closerLine, .comment closer⟩)
      rw [h.eq_of_line_eq hlines hpart hother hmem hcloser hline, Part.closerUse, if_pos hline, if_pos hbody]
  | stray =>
      obtain ⟨other, hother, hwarns⟩ := h.mem_warnings_iff.mp huse
      obtain ⟨d, hlone, kind, rfl, hrole⟩ := hwarns.exists_lone
      rw [h.eq_of_line_eq hlines hpart hother hmem (List.mem_singleton_self _) rfl]
      rfl

end Closers

theorem explained : found.Explained lines where
  unterminated := by
    intro note hnote kind hkind
    have hwarning := h.unterminated_iff hlines hnote hkind
    exact ⟨hwarning.trans (h.exactBlock hlines hnote hkind).getLast?_body_iff.symm, hwarning⟩
  unterminatedAlone := fun _ => h.unterminated_alone hlines
  emptyBlock := fun _ => h.emptyBlock_sound hlines
  strayCloser := fun _ => h.strayCloser_sound hlines
  closers := by
    intro line c kind hmem hrole
    rw [h.lines_eq] at hmem
    obtain ⟨part, hpart, hmem⟩ := List.mem_flatMap.mp hmem
    exact ⟨part.closerUse line, h.holds_closerUse hlines hpart hmem hrole, fun use huse =>
      h.eq_closerUse_of_holds hlines hpart hmem huse⟩

end Divides

theorem CloserUse.holds_anchored {found : Findings} {lines others : List TaggedLine} {line : Nat} {c : Comment}
    (use : CloserUse) : use.Holds (found.anchored others) lines line c ↔ use.Holds found lines line c := by
  cases use with
  | body => simp [Holds, Findings.anchored]
  | closing => simp [Holds, Findings.anchored]
  | closingEmpty => rfl
  | stray => rfl

theorem Findings.Explained.anchored {found : Findings} {lines : List TaggedLine} (h : found.Explained lines)
    (others : List TaggedLine) : (found.anchored others).Explained lines := by
  constructor
  · intro note hnote kind hkind
    obtain ⟨bare, hbare, rfl⟩ := List.mem_map.mp hnote
    exact h.unterminated bare hbare kind hkind
  · intro line hwarning halone
    refine h.unterminatedAlone line hwarning fun note hnote => ?_
    exact halone { note with anchor := anchorAfter (anchorIndex others) note.endLine }
      (List.mem_map.mpr ⟨note, hnote, rfl⟩)
  · intro line hwarning
    obtain ⟨hempty, halone⟩ := h.emptyBlock line hwarning
    refine ⟨hempty, fun note hnote => ?_⟩
    obtain ⟨bare, hbare, rfl⟩ := List.mem_map.mp hnote
    exact halone bare hbare
  · intro line hwarning
    obtain ⟨hstray, hapart⟩ := h.strayCloser line hwarning
    refine ⟨hstray, fun note hnote => ?_⟩
    obtain ⟨bare, hbare, rfl⟩ := List.mem_map.mp hnote
    exact hapart bare hbare
  · intro line c kind hmem hrole
    simp only [CloserUse.holds_anchored]
    exact h.closers line c kind hmem hrole

/-- Every warning has its reason in the file, every block that nothing closes is reported, and every line
that can close a block is used in one way and no other. -/
theorem extractWith_explained (source : Source) (style : CommentStyle) :
    (source.extractWith style).findings.Explained (style.tagLines source.lines) := by
  obtain ⟨parts, hparts⟩ := exists_divides (style.tagLines source.lines)
  exact (hparts.explained (style.numbered_tagLines source.lines)).anchored _

/-- An empty block around a blank line, a closer that nothing opens, and an opener at the end of the file. -/
theorem extractWith_explained_bodiless :
    let source := Source.new "a.py" "python" "# TODO: \x7b\n\n# \x7d\n# TODOS.END\n# TODO: \x7b"
    let lines := CommentStyle.hash.tagLines source.lines
    (∃! use : CloserUse, use.Holds (source.extractWith .hash).findings lines 3 ⟨['}'], 2, 1⟩) ∧
      (∃ kind closer, ClosesEmpty lines kind 1 closer) ∧
      (∃ c kind, ⟨4, .comment c⟩ ∈ lines ∧ Role.ofText c.text = BlockKind.closing kind) ∧
      ∃ c kind, ⟨5, .comment c⟩ ∈ lines ∧ Role.ofText c.text = BlockKind.opening kind :=
  have hexplained := extractWith_explained (Source.new "a.py" "python"
    "# TODO: \x7b\n\n# \x7d\n# TODOS.END\n# TODO: \x7b") .hash
  ⟨hexplained.closers 3 ⟨['}'], 2, 1⟩ .brace (by decide) (by decide), (hexplained.emptyBlock 1 (by decide)).1,
    (hexplained.strayCloser 4 (by decide)).1, (hexplained.unterminatedAlone 5 (by decide) (by decide)).1⟩

end Marginalia
