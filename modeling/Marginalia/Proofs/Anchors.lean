import Marginalia.Proofs.BlockBody

/-! The code a note is about. The index made from the end of the file answers every question as a search
forward through the lines would, so the anchor of a note is the next code line after its last line, with
its raw text, and a note without anchor has no code after it. Which line is the next code is said on the
tagged lines alone; there is at most one, so whoever knows it knows the anchor. -/

namespace Marginalia

/-- The index agrees with a search through the lines from a place on, also past their end. -/
theorem anchorAfter_anchorIndex (lines : List TaggedLine) (n : Nat) :
    anchorAfter (anchorIndex lines) n = (lines.drop n).findSome? TaggedLine.anchor? := by
  induction lines generalizing n with
  | nil => rw [List.drop_nil]; rfl
  | cons tagged rest ih =>
      cases n with
      | succ n => exact ih n
      | zero =>
          -- The index keeps at each place what a search from that place finds, here the one after `tagged`.
          have hlater : (anchorIndex rest).head?.join = rest.findSome? TaggedLine.anchor? := by
            rw [List.head?_eq_getElem?]
            exact ih 0
          show tagged.anchor?.or (anchorIndex rest).head?.join = _
          rw [hlater, List.drop_zero, List.findSome?_cons]
          cases tagged.anchor? <;> rfl

namespace TaggedLine

theorem anchor?_eq_some {tagged : TaggedLine} {anchor : Anchor} :
    tagged.anchor? = some anchor ↔ tagged = ⟨anchor.line, .code anchor.text⟩ := by
  obtain ⟨line, tag⟩ := tagged
  cases tag with
  | code text =>
      constructor
      · intro h
        cases h
        rfl
      · intro h
        cases h
        rfl
  | comment c => exact ⟨nofun, nofun⟩
  | blank => exact ⟨nofun, nofun⟩

theorem anchor?_eq_none {tagged : TaggedLine} : tagged.anchor? = none ↔ tagged.isCode = false := by
  obtain ⟨line, tag⟩ := tagged
  cases tag with
  | code text => exact ⟨nofun, nofun⟩
  | comment c => exact ⟨fun _ => rfl, fun _ => rfl⟩
  | blank => exact ⟨fun _ => rfl, fun _ => rfl⟩

end TaggedLine

/-- The anchor is the first code line after `line`. -/
structure IsNextCode (lines : List TaggedLine) (line : Nat) (anchor : Anchor) : Prop where
  mem : ⟨anchor.line, .code anchor.text⟩ ∈ lines
  lt : line < anchor.line
  noCode : ∀ tagged ∈ lines, line < tagged.line → tagged.line < anchor.line → tagged.isCode = false

instance (lines : List TaggedLine) (line : Nat) (anchor : Anchor) : Decidable (IsNextCode lines line anchor) :=
  decidable_of_iff (⟨anchor.line, .code anchor.text⟩ ∈ lines ∧ line < anchor.line ∧
      ∀ tagged ∈ lines, line < tagged.line → tagged.line < anchor.line → tagged.isCode = false)
    ⟨fun h => ⟨h.1, h.2.1, h.2.2⟩, fun h => ⟨h.mem, h.lt, h.noCode⟩⟩

/-- The code line of the anchor cuts off the block that line `start` opens: it is the first code line after
the opener, and nothing closes the block. -/
structure CutsOff (lines : List TaggedLine) (kind : BlockKind) (start : Nat) (anchor : Anchor) : Prop where
  next : IsNextCode lines start anchor
  unclosed : ¬ ∃ line c, ClosesBlock lines kind start line c

namespace IsNextCode

variable {lines : List TaggedLine} {line : Nat} {anchor other : Anchor}

theorem line_le_of_code (h : IsNextCode lines line anchor) {tagged : TaggedLine} (hmem : tagged ∈ lines)
    (hcode : tagged.isCode = true) (hlt : line < tagged.line) : anchor.line ≤ tagged.line := by
  by_contra hbefore
  rw [h.noCode tagged hmem hlt (Nat.lt_of_not_le hbefore)] at hcode
  cases hcode

theorem unique (h : IsNextCode lines line anchor) (hother : IsNextCode lines line other)
    (hlines : Numbered lines) : anchor = other := by
  have hle := h.line_le_of_code hother.mem rfl hother.lt
  have hge := hother.line_le_of_code h.mem rfl h.lt
  have hsame := Numbered.eq_of_line_eq hlines h.mem hother.mem (Nat.le_antisymm hle hge)
  obtain ⟨anchorLine, anchorText⟩ := anchor
  obtain ⟨otherLine, otherText⟩ := other
  cases hsame
  rfl

theorem of_noCode {start : Nat} (h : IsNextCode lines start anchor)
    (hnone : ∀ tagged ∈ lines, start < tagged.line → tagged.line ≤ line → tagged.isCode = false)
    (hle : start ≤ line) : IsNextCode lines line anchor where
  mem := h.mem
  lt := by
    by_contra hbefore
    cases hnone _ h.mem h.lt (Nat.le_of_not_lt hbefore)
  noCode := fun tagged hmem hlow hhigh => h.noCode tagged hmem (Nat.lt_of_le_of_lt hle hlow) hhigh

end IsNextCode

section Search

variable {style : CommentStyle} {lines : List Text} {n : Nat} {anchor : Anchor}

theorem anchorAfter_eq_none_iff :
    anchorAfter (anchorIndex (style.tagLines lines)) n = none ↔
      ∀ tagged ∈ style.tagLines lines, n < tagged.line → tagged.isCode = false := by
  rw [anchorAfter_anchorIndex, List.findSome?_eq_none_iff]
  constructor
  · intro hnone tagged hmem hlt
    exact TaggedLine.anchor?_eq_none.mp (hnone tagged (CommentStyle.mem_drop_tagLines.mpr ⟨hmem, hlt⟩))
  · intro hnone tagged hdrop
    obtain ⟨hmem, hlt⟩ := CommentStyle.mem_drop_tagLines.mp hdrop
    exact TaggedLine.anchor?_eq_none.mpr (hnone tagged hmem hlt)

theorem isNextCode_of_anchorAfter (h : anchorAfter (anchorIndex (style.tagLines lines)) n = some anchor) :
    IsNextCode (style.tagLines lines) n anchor := by
  rw [anchorAfter_anchorIndex, List.findSome?_eq_some_iff] at h
  obtain ⟨above, tagged, below, hdrop, hanchor, hnone⟩ := h
  rw [TaggedLine.anchor?_eq_some] at hanchor
  subst hanchor
  have hordered : Numbered (above ++ ⟨anchor.line, .code anchor.text⟩ :: below) := by
    rw [← hdrop]
    exact (style.numbered_tagLines lines).sublist (List.drop_sublist n _)
  have hbelow := (List.pairwise_cons.mp (List.pairwise_append.mp hordered).2.1).1
  have hfound : ⟨anchor.line, .code anchor.text⟩ ∈ (style.tagLines lines).drop n := by
    rw [hdrop]
    exact List.mem_append_right _ List.mem_cons_self
  obtain ⟨hmem, hlt⟩ := CommentStyle.mem_drop_tagLines.mp hfound
  refine ⟨hmem, hlt, fun tagged htagged hlow hhigh => ?_⟩
  have hplace := CommentStyle.mem_drop_tagLines.mpr ⟨htagged, hlow⟩
  rw [hdrop] at hplace
  rcases List.mem_append.mp hplace with habove | hfrom
  · exact TaggedLine.anchor?_eq_none.mp (hnone tagged habove)
  · rcases List.mem_cons.mp hfrom with rfl | hlater
    · exact absurd hhigh (Nat.lt_irrefl _)
    · exact absurd (hbelow tagged hlater) (Nat.lt_asymm hhigh)

theorem anchorAfter_eq_some_iff :
    anchorAfter (anchorIndex (style.tagLines lines)) n = some anchor ↔
      IsNextCode (style.tagLines lines) n anchor := by
  refine ⟨isNextCode_of_anchorAfter, fun h => ?_⟩
  cases hfound : anchorAfter (anchorIndex (style.tagLines lines)) n with
  | none => cases anchorAfter_eq_none_iff.mp hfound _ h.mem h.lt
  | some other =>
      rw [h.unique (isNextCode_of_anchorAfter hfound) (style.numbered_tagLines lines)]

theorem exists_anchorAfter_of_le {m : Nat} (hle : n ≤ m)
    (h : anchorAfter (anchorIndex (style.tagLines lines)) m = some anchor) :
    ∃ earlier, anchorAfter (anchorIndex (style.tagLines lines)) n = some earlier ∧ earlier.line ≤ anchor.line := by
  have hnext := anchorAfter_eq_some_iff.mp h
  have hlt : n < anchor.line := Nat.lt_of_le_of_lt hle hnext.lt
  cases hfound : anchorAfter (anchorIndex (style.tagLines lines)) n with
  | none => cases anchorAfter_eq_none_iff.mp hfound _ hnext.mem hlt
  | some earlier =>
      exact ⟨earlier, rfl, (anchorAfter_eq_some_iff.mp hfound).line_le_of_code hnext.mem rfl hlt⟩

end Search

theorem line?_of_code {source : Source} {style : CommentStyle} {line : Nat} {text : Text}
    (h : ⟨line, .code text⟩ ∈ style.tagLines source.lines) : source.line? line = some text := by
  obtain ⟨before, raw, after, hlines, htagged⟩ := CommentStyle.mem_tagFrom.mp h
  obtain ⟨rfl, htag⟩ := TaggedLine.mk.inj htagged
  rw [CommentStyle.tag_of_code htag.symm] at htag
  cases htag
  rw [Nat.add_comm, Source.line?, hlines, List.getElem?_append_right (Nat.le_refl _), Nat.sub_self]
  rfl

/-- Anchors as they should be: the next code after each note, in its raw text, which for a block that code
cuts off is the code that does; never before the anchor of an earlier note, and missing only at the end. -/
structure Findings.AnchoredIn (found : Findings) (source : Source) (lines : List TaggedLine) : Prop where
  next : ∀ note ∈ found.notes, ∀ anchor, note.anchor = some anchor →
    IsNextCode lines note.endLine anchor ∧ source.line? anchor.line = some anchor.text
  missing : ∀ note ∈ found.notes, note.anchor = .none →
    ∀ tagged ∈ lines, note.endLine < tagged.line → tagged.isCode = false
  cutOff : ∀ note ∈ found.notes, ∀ kind : BlockKind, note.kind = kind.noteKind →
    ∀ anchor, CutsOff lines kind note.startLine anchor → note.anchor = some anchor
  ordered : found.notes.Pairwise fun note later =>
    ∀ anchor ∈ later.anchor, ∃ earlier ∈ note.anchor, earlier.line ≤ anchor.line

/-- Every question to the index is answered as a search through the lines answers it, and every note has
the next code line as its anchor. -/
theorem extractWith_anchoredIn :
    (∀ (lines : List TaggedLine) (n : Nat),
      anchorAfter (anchorIndex lines) n = (lines.drop n).findSome? TaggedLine.anchor?) ∧
    ∀ (source : Source) (style : CommentStyle),
      (source.extractWith style).findings.AnchoredIn source (style.tagLines source.lines) := by
  refine ⟨anchorAfter_anchorIndex, fun source style => ?_⟩
  have hwell := assemble_wellFormed style source.lines
  constructor
  · intro note hnote anchor hanchor
    obtain ⟨bare, hbare, rfl⟩ := List.mem_map.mp hnote
    have hnext := anchorAfter_eq_some_iff.mp hanchor
    exact ⟨hnext, line?_of_code hnext.mem⟩
  · intro note hnote hnone
    obtain ⟨bare, hbare, rfl⟩ := List.mem_map.mp hnote
    exact anchorAfter_eq_none_iff.mp hnone
  · intro note hnote kind hkind anchor hcuts
    obtain ⟨bare, hbare, rfl⟩ := List.mem_map.mp hnote
    obtain ⟨parts, hparts⟩ := exists_divides (style.tagLines source.lines)
    have hexact := hparts.exactBlock (style.numbered_tagLines source.lines) hbare hkind
    -- A block has no code in its range, so the first code after its opener is the first after its end.
    apply anchorAfter_eq_some_iff.mpr
    exact hcuts.next.of_noCode (fun tagged hmem hlow => hexact.noCode tagged hmem (Nat.le_of_lt hlow))
      (hwell.notes bare hbare).start_le_end
  · apply List.pairwise_map.mpr
    refine hwell.apart.imp_of_mem fun {note later} _ hlater hlt anchor hanchor => ?_
    have hle : note.endLine ≤ later.endLine :=
      Nat.le_of_lt (Nat.lt_of_lt_of_le hlt (hwell.notes later hlater).start_le_end)
    exact exists_anchorAfter_of_le hle hanchor

/-- A collection that code cuts off after a blank line, and a question past the end of the lines. -/
theorem extractWith_anchoredIn_cutOff :
    let source := Source.new "a.py" "python" "# TODOS.START\n# a\n\nx"
    (∃ note ∈ (source.extractWith .hash).findings.notes,
      CutsOff (CommentStyle.hash.tagLines source.lines) .collection note.startLine ⟨4, ['x']⟩ ∧
        note.anchor = some ⟨4, ['x']⟩) ∧
      anchorAfter (anchorIndex [⟨1, .code ['x']⟩]) 2 = none := by
  intro source
  have hlines : CommentStyle.hash.tagLines source.lines = [⟨1, .comment ⟨"TODOS.START", 2, 1⟩⟩,
      ⟨2, .comment ⟨['a'], 2, 1⟩⟩, ⟨3, .blank⟩, ⟨4, .code ['x']⟩] := rfl
  have hnote : ⟨.collection, 1, 2, [⟨2, 2, ['a']⟩], some ⟨4, ['x']⟩⟩ ∈ (source.extractWith .hash).findings.notes :=
    List.mem_singleton.mpr rfl
  have hcuts : CutsOff (CommentStyle.hash.tagLines source.lines) .collection 1 ⟨4, ['x']⟩ := by
    rw [hlines]
    refine ⟨by decide, ?_⟩
    rintro ⟨line, c, hcloses⟩
    have hmem := hcloses.mem
    have hrole := hcloses.ends.1
    simp only [List.mem_cons, TaggedLine.mk.injEq, Tag.comment.injEq, reduceCtorEq, and_false, List.not_mem_nil,
      or_false] at hmem
    rcases hmem with ⟨-, rfl⟩ | ⟨-, rfl⟩ <;> exact absurd hrole (by decide)
  exact ⟨⟨_, hnote, hcuts, (extractWith_anchoredIn.2 source .hash).cutOff _ hnote .collection rfl _ hcuts⟩,
    extractWith_anchoredIn.1 [⟨1, .code ['x']⟩] 2⟩

end Marginalia
