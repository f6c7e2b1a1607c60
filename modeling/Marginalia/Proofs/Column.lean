import Marginalia.Proofs.Tagging
import Marginalia.Proofs.Parts
import Marginalia.Proofs.Slice

/-! Where texts stand on their lines. The column of a comment counts the bytes before its text, so the
line can be put together again: what stands before the column, the text, and what comes after it, which is
white space up to the end of the line or up to the closing delimiter. The column of a marker note adds the
bytes of the keyword's part, so every body line is found in the file at its column. -/

namespace Marginalia

/-- The text is the mark with white space around it. -/
def Text.Frames (s mark : Text) : Prop :=
  ∃ v w : Text, v.isAllBlank = true ∧ w.isAllBlank = true ∧ s = v ++ mark ++ w

namespace CommentStyle

/-- The mark that starts a comment on the line: the opening delimiter, or else the leader that matches. -/
def Starts (style : CommentStyle) (raw mark : Text) : Prop :=
  (∃ block, style.Opens raw block ∧ mark = block.opening) ∨
    (¬ ∃ block, style.Opens raw block) ∧ style.leader? raw.trimStart = some mark

/-- What can stand before the text of a comment: inside a block comment at most one `*`, and else the mark
that starts the comment, with white space around it. -/
def Leads (style : CommentStyle) (isOpen : Bool) (raw before : Text) (leader : Nat) : Prop :=
  if isOpen then leader = 0 ∧ (before.Frames [] ∨ before.Frames ['*'])
  else ∃ mark, style.Starts raw mark ∧ leader = mark.bytes ∧ before.Frames mark

/-- What can stand after the text of a comment: white space, and then the end of the line or the closing
delimiter. -/
def Trails (style : CommentStyle) (after : Text) : Prop :=
  ∃ w : Text, w.isAllBlank = true ∧
    (after = w ∨ ∃ block rest, style.block = some block ∧ after = w ++ block.closing ++ rest)

/-- The line `raw` is `before`, the text of the comment, and `after`. -/
structure Places (style : CommentStyle) (isOpen : Bool) (raw : Text) (c : Comment) (before after : Text) :
    Prop where
  line : raw = before ++ c.text ++ after
  column : before.bytes = c.column
  trimmed : c.text.IsTrimmed
  leads : style.Leads isOpen raw before c.leader
  trails : style.Trails after

end CommentStyle

theorem Text.Frames.append {s mark w : Text} (h : s.Frames mark) (hw : w.isAllBlank = true) :
    Text.Frames (s ++ w) mark := by
  obtain ⟨v, u, hv, hu, rfl⟩ := h
  exact ⟨v, u ++ w, hv, Text.isAllBlank_append hu hw, by rw [List.append_assoc]⟩

/-- A segment is white space, the text of its comment, and white space. -/
theorem Comment.exists_eq_segment (start leader : Nat) (segment : Text) :
    ∃ lead tail : Text, lead.isAllBlank = true ∧ tail.isAllBlank = true ∧
      segment = lead ++ (Comment.ofSegment start leader segment).text ++ tail ∧
      (Comment.ofSegment start leader segment).column = start + lead.bytes := by
  obtain ⟨tail, htail, hsegment⟩ := segment.exists_eq_trim
  by_cases hempty : segment.trim = []
  · have hblank : segment.isAllBlank = true := by
      rw [hsegment, hempty, List.append_nil]
      exact Text.isAllBlank_append segment.isAllBlank_indent htail
    refine ⟨[], segment, rfl, hblank, ?_, ?_⟩
    · rw [Comment.ofSegment, hempty]
      rfl
    · rw [Comment.ofSegment, if_pos hempty]
      rfl
  · refine ⟨segment.indent, tail, segment.isAllBlank_indent, htail, hsegment, ?_⟩
    rw [Comment.ofSegment, if_neg hempty]

/-- The comment of a segment stands on the line that the segment is cut from. -/
theorem CommentStyle.exists_places {style : CommentStyle} {isOpen : Bool} {raw lead segment rest : Text}
    {leader : Nat} (hraw : raw = lead ++ segment ++ rest)
    (hlead : ∀ w : Text, w.isAllBlank = true → style.Leads isOpen raw (lead ++ w) leader)
    (hrest : rest = [] ∨ ∃ block later, style.block = some block ∧ rest = block.closing ++ later) :
    ∃ before after, style.Places isOpen raw (.ofSegment lead.bytes leader segment) before after := by
  obtain ⟨w, tail, hw, htail, hsegment, hcolumn⟩ := Comment.exists_eq_segment lead.bytes leader segment
  refine ⟨lead ++ w, tail ++ rest, ?_, ?_, segment.isTrimmed_trim, hlead w hw, tail, htail, ?_⟩
  · rw [hraw]
    nth_rewrite 1 [hsegment]
    simp only [List.append_assoc]
  · rw [Text.bytes_append, hcolumn]
  · rcases hrest with rfl | ⟨block, later, hblock, rfl⟩
    · exact Or.inl (List.append_nil _)
    · exact Or.inr ⟨block, later, hblock, (List.append_assoc _ _ _).symm⟩

theorem Delimiters.eq_append_inside (block : Delimiters) (s : Text) :
    ∃ rest, s = (block.inside s).1 ++ rest ∧ (rest = [] ∨ ∃ later, rest = block.closing ++ later) := by
  unfold Delimiters.inside
  cases hcut : Text.cutFirst? block.closing s with
  | none => exact ⟨[], (List.append_nil s).symm, Or.inl rfl⟩
  | some pieces =>
      obtain ⟨segment, later⟩ := pieces
      refine ⟨block.closing ++ later, ?_, Or.inr ⟨later, rfl⟩⟩
      rw [← List.append_assoc]
      exact Text.eq_append_of_cutFirst? hcut

namespace CommentStyle

theorem leads_of_starts {style : CommentStyle} {raw mark : Text} (h : style.Starts raw mark) (w : Text)
    (hw : w.isAllBlank = true) : style.Leads false raw (raw.indent ++ mark ++ w) mark.bytes :=
  ⟨mark, h, rfl, raw.indent, w, raw.isAllBlank_indent, hw, rfl⟩

theorem exists_places_of_tagOutside {style : CommentStyle} {raw : Text} {c : Comment}
    (h : (style.tagOutside raw).1 = .comment c) : ∃ before after, style.Places false raw c before after := by
  have hraw := raw.indent_append_trimStart
  have hcases := style.tagsOutside raw
  generalize style.tagOutside raw = tagged at h hcases
  cases hcases with
  | blank hblank => cases h
  | code hne hblock hleader => cases h
  | block block rest hne hblock hrest =>
      cases h
      obtain ⟨later, hinside, hlater⟩ := block.eq_append_inside rest
      have hline : raw = raw.indent ++ block.opening ++ (block.inside rest).1 ++ later := by
        rw [List.append_assoc, ← hinside, List.append_assoc, ← hrest, hraw]
      have hstarts : style.Starts raw block.opening := Or.inl ⟨block, ⟨hblock, rest, hrest.symm⟩, rfl⟩
      refine exists_places hline (leads_of_starts hstarts) ?_
      exact hlater.imp_right fun ⟨after, hafter⟩ => ⟨block, after, hblock, hafter⟩
  | leader leader rest hne hblock hleader hrest =>
      cases h
      have hline : raw = raw.indent ++ leader ++ rest ++ [] := by
        rw [List.append_nil, List.append_assoc, ← hrest, hraw]
      exact exists_places hline (leads_of_starts (Or.inr ⟨hblock, hleader⟩)) (Or.inl rfl)

end CommentStyle

/-- The comment of a segment inside a block comment comes after its white space, and after a `*` that
stands alone. -/
theorem Comment.ofInterior_eq (segment : Text) :
    Comment.ofInterior segment = .ofSegment segment.indent.bytes 0 segment.trimStart ∨
      ∃ rest, segment.trimStart = '*' :: rest ∧
        Comment.ofInterior segment = .ofSegment (Text.bytes (segment.indent ++ ['*'])) 0 rest := by
  unfold Comment.ofInterior
  split
  · next rest hstar =>
    split
    · refine Or.inr ⟨rest, hstar, ?_⟩
      rw [Text.bytes_append]
      rfl
    · exact Or.inl (by rw [hstar])
  · exact Or.inl rfl

namespace CommentStyle

theorem exists_places_of_interior {style : CommentStyle} {block : Delimiters} (hblock : style.block = some block)
    (raw : Text) :
    ∃ before after, style.Places true raw (.ofInterior (block.inside raw).1) before after := by
  obtain ⟨later, hraw, hlater⟩ := block.eq_append_inside raw
  generalize (block.inside raw).1 = segment at hraw
  have hsegment := segment.indent_append_trimStart
  have hrest : later = [] ∨ ∃ block rest, style.block = some block ∧ later = block.closing ++ rest :=
    hlater.imp_right fun ⟨rest, hrest⟩ => ⟨block, rest, hblock, hrest⟩
  rcases Comment.ofInterior_eq segment with heq | ⟨rest, hstar, heq⟩
  · rw [heq]
    refine exists_places (by rw [hsegment]; exact hraw) (fun w hw => ?_) hrest
    refine ⟨rfl, Or.inl ⟨segment.indent, w, segment.isAllBlank_indent, hw, ?_⟩⟩
    rw [List.append_nil]
  · rw [heq]
    have hline : raw = segment.indent ++ ['*'] ++ rest ++ later := by
      rw [List.append_assoc segment.indent, List.singleton_append, ← hstar, hsegment]
      exact hraw
    refine exists_places hline (fun w hw => ?_) hrest
    exact ⟨rfl, Or.inr ⟨segment.indent, w, segment.isAllBlank_indent, hw, rfl⟩⟩

theorem exists_places_of_tag {style : CommentStyle} {isOpen : Bool} {raw : Text} {c : Comment}
    (hopen : isOpen = true → style.block.isSome = true) (h : (style.tag isOpen raw).1 = .comment c) :
    ∃ before after, style.Places isOpen raw c before after := by
  cases isOpen with
  | false => exact exists_places_of_tagOutside h
  | true =>
      obtain ⟨block, hblock⟩ := Option.isSome_iff_exists.mp (hopen rfl)
      simp only [tag, hblock] at h
      cases h
      exact exists_places_of_interior hblock raw

end CommentStyle

theorem exists_places_of_mem_tagLines {source : Source} {style : CommentStyle} {line : Nat} {c : Comment}
    (h : ⟨line, .comment c⟩ ∈ style.tagLines source.lines) :
    ∃ raw before after, source.line? line = some raw ∧
      style.Places (style.openAfter false (source.lines.take (line - 1))) raw c before after := by
  obtain ⟨earlier, raw, later, hlines, htagged⟩ := CommentStyle.mem_tagFrom.mp h
  obtain ⟨hline, htag⟩ := TaggedLine.mk.inj htagged
  have hopen : style.openAfter false earlier = true → style.block.isSome = true :=
    CommentStyle.isSome_block_of_openAfter nofun
  obtain ⟨before, after, hplaces⟩ := CommentStyle.exists_places_of_tag hopen htag.symm
  refine ⟨raw, before, after, ?_, ?_⟩
  · rw [hline, Nat.add_comm, Source.line?, hlines, List.getElem?_append_right (Nat.le_refl _), Nat.sub_self]
    rfl
  · rw [hline, hlines, Nat.add_sub_cancel_left, List.take_left]
    exact hplaces

namespace Role

theorem eq_append_of_colon {word s rest tail : Text} (hrest : Text.after? word s = some rest)
    (htail : rest.trimStart = ':' :: tail) : s = word ++ rest.indent ++ [':'] ++ tail := by
  rw [List.append_assoc _ [':'], List.singleton_append, ← htail, List.append_assoc, Text.indent_append_trimStart]
  exact Text.eq_append_of_after? hrest

theorem eq_append_of_heading? {keyword : Keyword} {s lead text : Text} (h : heading? keyword s = some (lead, text)) :
    s = lead ++ text ∧ ∃ front tail, s = front ++ tail ∧ text = Text.trimStart tail := by
  obtain ⟨rest, hrest, hheading⟩ := Option.bind_eq_some_iff.mp h
  split at hheading
  · next tail htail =>
    simp only at hheading
    split at hheading
    · cases hheading
    · cases hheading
      have hs := eq_append_of_colon hrest htail
      refine ⟨?_, _, tail, hs, rfl⟩
      rw [hs]
      nth_rewrite 1 [← Text.indent_append_trimStart tail]
      simp only [List.append_assoc, List.cons_append, List.nil_append]
  · cases hheading

/-- The text of a marker ends the trimmed comment, at the offset the role tells. -/
theorem exists_of_ofText_marker {s text : Text} {keyword : Keyword} {offset : Nat} (hs : s.IsTrimmed)
    (h : ofText s = .marker keyword text offset) :
    ∃ lead : Text, s = lead ++ text ∧ lead.bytes = offset ∧ text.IsTrimmed := by
  rw [ofText, hs.trim_eq, ofTrimmed] at h
  split at h
  · cases h
  split at h
  · next role hmarker =>
    subst h
    obtain ⟨⟨word, lead, inline⟩, hmarked, hrole⟩ := Option.bind_eq_some_iff.mp hmarker
    obtain ⟨key, -, hkey⟩ := List.exists_of_findSome?_eq_some hmarked
    obtain ⟨pair, hheading, hpair⟩ := Option.map_eq_some_iff.mp hkey
    cases hpair
    obtain ⟨hlead, front, tail, hfront, htext⟩ := eq_append_of_heading? hheading
    simp only at hrole
    split at hrole
    · cases hrole
    · cases hrole
      refine ⟨lead, hlead, rfl, ?_⟩
      rw [hfront] at hs
      rw [htext]
      exact hs.trimStart_of_append
  · split_ifs at h

end Role

/-- The body line is a piece of the line `raw`, from its column on, without white space around it. -/
structure BodyLine.StandsIn (b : BodyLine) (raw : Text) : Prop where
  start : raw.isBoundary b.column = true
  stop : raw.isBoundary (b.column + b.text.bytes) = true
  slice : raw.slice? b.column (b.column + b.text.bytes) = some b.text
  trimmed : b.text.IsTrimmed

theorem BodyLine.standsIn_append {before text after : Text} (line : Nat) (h : text.IsTrimmed) :
    BodyLine.StandsIn ⟨line, before.bytes, text⟩ (before ++ text ++ after) where
  start := by
    rw [List.append_assoc]
    exact Text.isBoundary_append before (text ++ after)
  stop := by
    rw [← Text.bytes_append]
    exact Text.isBoundary_append (before ++ text) after
  slice := Text.slice?_append before text after
  trimmed := h

/-- A body line is a whole comment, or what follows the keyword of one. -/
theorem Part.Makes.exists_comment {part : Part} {note : Note} (h : part.Makes note) {b : BodyLine}
    (hb : b ∈ note.body) :
    ∃ c, ⟨b.line, .comment c⟩ ∈ part.lines ∧ (b = ⟨b.line, c.column, c.text⟩ ∨
      ∃ keyword text offset, Role.ofText c.text = .marker keyword text offset ∧
        b = ⟨b.line, c.column + offset, text⟩) := by
  cases h with
  | @marked line c keyword text offset h hrole =>
      cases List.mem_singleton.mp hb
      exact ⟨c, List.mem_singleton_self _, Or.inr ⟨keyword, text, offset, hrole, rfl⟩⟩
  | closed h hbody =>
      obtain ⟨c, hmem, heq⟩ := mem_bodyLines.mp hb
      exact ⟨c, List.mem_append_left _ (List.mem_cons_of_mem _ hmem), Or.inl heq⟩
  | cutOff hbody =>
      obtain ⟨c, hmem, heq⟩ := mem_bodyLines.mp hb
      exact ⟨c, List.mem_cons_of_mem _ hmem, Or.inl heq⟩

theorem CommentStyle.Places.standsIn {style : CommentStyle} {isOpen : Bool} {raw before after : Text}
    {c : Comment} (h : style.Places isOpen raw c before after) {b : BodyLine}
    (hb : b = ⟨b.line, c.column, c.text⟩ ∨ ∃ keyword text offset,
      Role.ofText c.text = .marker keyword text offset ∧ b = ⟨b.line, c.column + offset, text⟩) :
    b.StandsIn raw := by
  rcases hb with heq | ⟨keyword, text, offset, hrole, heq⟩
  · rw [heq, h.line, ← h.column]
    exact BodyLine.standsIn_append b.line h.trimmed
  · obtain ⟨lead, htext, hoffset, htrimmed⟩ := Role.exists_of_ofText_marker h.trimmed hrole
    rw [heq, h.line, ← h.column, ← hoffset, ← Text.bytes_append, htext, ← List.append_assoc before]
    exact BodyLine.standsIn_append b.line htrimmed

/-- Every body line is found in the file at its column, and every comment line can be put together again
from what stands before its column, its text, and white space up to the end or the closing delimiter. -/
theorem extractWith_traceable (source : Source) (style : CommentStyle) :
    (∀ note ∈ (source.extractWith style).findings.notes, ∀ b ∈ note.body,
      ∃ raw, source.line? b.line = some raw ∧ b.StandsIn raw) ∧
    ∀ line c, ⟨line, .comment c⟩ ∈ style.tagLines source.lines →
      ∃ raw before after, source.line? line = some raw ∧
        style.Places (style.openAfter false (source.lines.take (line - 1))) raw c before after := by
  refine ⟨fun note hnote b hb => ?_, fun line c h => exists_places_of_mem_tagLines h⟩
  obtain ⟨bare, hbare, rfl⟩ := List.mem_map.mp hnote
  obtain ⟨parts, hparts⟩ := exists_divides (style.tagLines source.lines)
  obtain ⟨earlier, part, later, hlines, hmade, -⟩ := hparts.exists_part hbare
  obtain ⟨c, hmem, hcomment⟩ := hmade.exists_comment hb
  have htagged : ⟨b.line, .comment c⟩ ∈ style.tagLines source.lines := by
    rw [hlines]
    exact List.mem_append_left _ (List.mem_append_right _ hmem)
  obtain ⟨raw, before, after, hraw, hplaces⟩ := exists_places_of_mem_tagLines htagged
  exact ⟨raw, hraw, hplaces.standsIn hcomment⟩

/-- The text of a marker inside a block comment, after a decoration and before the closing delimiter, and the
whole comment on its line. -/
theorem extractWith_traceable_decorated :
    (∃ raw, (Source.new "a.c" "c" "/*\n\u3000* TODO : é ! */ x").line? 2 = some raw ∧
      BodyLine.StandsIn ⟨2, 12, "é !"⟩ raw) ∧
    ∃ raw before after, (Source.new "a.c" "c" "/*\n\u3000* TODO : é ! */ x").line? 2 = some raw ∧
      CommentStyle.Places { block := some ⟨"/*", "*/"⟩ } true raw ⟨"TODO : é !", 5, 0⟩ before after :=
  have htraceable := extractWith_traceable (Source.new "a.c" "c" "/*\n\u3000* TODO : é ! */ x")
    { block := some ⟨"/*", "*/"⟩ }
  ⟨htraceable.1 ⟨.marker .todo, 2, 2, [⟨2, 12, "é !"⟩], none⟩ (by decide) ⟨2, 12, "é !"⟩ (by decide),
    htraceable.2 2 ⟨"TODO : é !", 5, 0⟩ (by decide)⟩

end Marginalia
