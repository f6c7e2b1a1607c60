import Mathlib.Data.List.Pairwise
import Marginalia.Proofs.Tagging
import Marginalia.Proofs.Parts

/-! The order of what is found. Notes cover ranges of lines that lie inside the file and follow one
another without touching, each with its body inside its range; warnings follow one another too, at most
one on a line. All of it comes from the parts of the file: they cover the lines in order, and what a
part makes lies on lines of that part. -/

namespace Marginalia

/-- Numbered lines with the same number are the same. -/
theorem Numbered.eq_of_line_eq {lines : List TaggedLine} (h : Numbered lines) {a b : TaggedLine}
    (ha : a ∈ lines) (hb : b ∈ lines) (hline : a.line = b.line) : a = b := by
  have hsymm : Std.Symm fun a b : TaggedLine => a.line ≠ b.line := ⟨fun _ _ => Ne.symm⟩
  have hdistinct : lines.Pairwise fun a b => a.line ≠ b.line := h.imp Nat.ne_of_lt
  by_contra hne
  exact hdistinct.forall ha hb hne hline

theorem TaggedLine.line_of_bodyLine? {tagged : TaggedLine} {b : BodyLine} (h : tagged.bodyLine? = some b) :
    b.line = tagged.line := by
  obtain ⟨line, tag⟩ := tagged
  cases tag with
  | comment c => cases h; rfl
  | code text => cases h
  | blank => cases h

theorem exists_mem_of_mem_bodyLines {b : BodyLine} {lines : List TaggedLine} (h : b ∈ bodyLines lines) :
    ∃ tagged ∈ lines, tagged.line = b.line := by
  obtain ⟨c, hmem, _⟩ := mem_bodyLines.mp h
  exact ⟨_, hmem, rfl⟩

theorem pairwise_bodyLines {lines : List TaggedLine} (h : Numbered lines) :
    (bodyLines lines).Pairwise fun a b => a.line < b.line := by
  rw [bodyLines, List.pairwise_filterMap]
  refine h.imp fun hlt b hb b' hb' => ?_
  rw [TaggedLine.line_of_bodyLine? hb, TaggedLine.line_of_bodyLine? hb']
  exact hlt

namespace Block

theorem lastLine_eq {block : Block} (h : block.body ≠ []) : block.lastLine = (block.body.getLast h).line := by
  rw [lastLine, List.getLast?_eq_some_getLast h]
  rfl

theorem exists_mem_lastLine (block : Block) : ∃ tagged ∈ block.lines, tagged.line = block.lastLine := by
  by_cases h : block.body = []
  · refine ⟨_, List.mem_cons_self, ?_⟩
    rw [lastLine, h]
    rfl
  · obtain ⟨tagged, hmem, hline⟩ := exists_mem_of_mem_bodyLines (List.getLast_mem h)
    exact ⟨tagged, List.mem_cons_of_mem _ hmem, by rw [hline, lastLine_eq h]⟩

theorem line_lt_of_mem_body {block : Block} (h : Numbered block.lines)
    {b : BodyLine} (hb : b ∈ block.body) : block.line < b.line := by
  obtain ⟨tagged, hmem, hline⟩ := exists_mem_of_mem_bodyLines hb
  rw [← hline]
  exact (List.pairwise_cons.mp h).1 tagged hmem

theorem le_lastLine_of_mem_body {block : Block} (h : Numbered block.lines)
    {b : BodyLine} (hb : b ∈ block.body) : b.line ≤ block.lastLine := by
  have hne : block.body ≠ [] := List.ne_nil_of_mem hb
  have hbody := pairwise_bodyLines (List.pairwise_cons.mp h).2
  rw [lastLine_eq hne]
  have hsplit := List.dropLast_concat_getLast hne
  rw [← hsplit] at hb
  rcases List.mem_append.mp hb with hb | hb
  · change block.body.Pairwise _ at hbody
    rw [← hsplit, List.pairwise_append] at hbody
    exact Nat.le_of_lt (hbody.2.2 b hb _ (List.mem_singleton_self _))
  · exact Nat.le_of_eq (congrArg BodyLine.line (List.mem_singleton.mp hb))

end Block

/-- A note as it should be in a file of `count` lines. -/
structure Note.WellFormed (note : Note) (count : Nat) : Prop where
  one_le_start : 1 ≤ note.startLine
  start_le_end : note.startLine ≤ note.endLine
  end_le_count : note.endLine ≤ count
  start_add_span : note.startLine + note.lineSpan = note.endLine + 1
  marker : ∀ keyword, note.kind = .marker keyword →
    note.startLine = note.endLine ∧ ∃ b, note.body = [b] ∧ b.line = note.startLine
  block : note.kind.isBlock = true →
    note.body ≠ [] ∧ (note.body.Pairwise fun a b => a.line < b.line) ∧
      ∀ b ∈ note.body, note.startLine < b.line ∧ b.line ≤ note.endLine

/-- Findings as they should be in a file of `count` lines: notes with ranges apart from one another, and
warnings on different lines, both in the order of the lines. -/
structure Findings.WellFormed (found : Findings) (count : Nat) : Prop where
  notes : ∀ note ∈ found.notes, note.WellFormed count
  apart : found.notes.Pairwise fun a b => a.endLine < b.startLine
  warnings : ∀ warning ∈ found.warnings, 1 ≤ warning.line ∧ warning.line ≤ count
  increasing : found.warnings.Pairwise fun a b => a.line < b.line

namespace Part

theorem Makes.exists_mem_startLine {part : Part} {note : Note} (h : part.Makes note) :
    ∃ tagged ∈ part.lines, tagged.line = note.startLine := by
  cases h with
  | marked h hrole => exact ⟨_, List.mem_singleton_self _, rfl⟩
  | closed h hbody => exact ⟨_, List.mem_cons_self, rfl⟩
  | cutOff hbody => exact ⟨_, List.mem_cons_self, rfl⟩

theorem Makes.exists_mem_endLine {part : Part} {note : Note} (h : part.Makes note) :
    ∃ tagged ∈ part.lines, tagged.line = note.endLine := by
  cases h with
  | marked h hrole => exact ⟨_, List.mem_singleton_self _, rfl⟩
  | closed h hbody => exact ⟨_, List.mem_append_right _ (List.mem_singleton_self _), rfl⟩
  | cutOff hbody => exact Block.exists_mem_lastLine _

theorem Warns.exists_mem_line {part : Part} {warning : Warning} (h : part.Warns warning) :
    ∃ tagged ∈ part.lines, tagged.line = warning.line := by
  cases h with
  | stray h kind hrole => exact ⟨_, List.mem_singleton_self _, rfl⟩
  | empty h hbody => exact ⟨_, List.mem_cons_self, rfl⟩
  | cutOff => exact ⟨_, List.mem_cons_self, rfl⟩

theorem Makes.start_le_end {part : Part} {note : Note} (h : part.Makes note)
    (hlines : Numbered part.lines) : note.startLine ≤ note.endLine := by
  cases h with
  | marked h hrole => exact Nat.le_refl _
  | @closed block line closer h hbody =>
      have hlt := (List.pairwise_append.mp hlines).2.2
      exact Nat.le_of_lt (hlt _ List.mem_cons_self _ (List.mem_singleton_self _))
  | @cutOff block hbody =>
      have hmem := List.getLast_mem hbody
      exact Nat.le_trans (Nat.le_of_lt (Block.line_lt_of_mem_body hlines hmem))
        (Block.le_lastLine_of_mem_body hlines hmem)

theorem Makes.marker_body {part : Part} {note : Note} (h : part.Makes note) {keyword : Keyword}
    (hkind : note.kind = .marker keyword) :
    note.startLine = note.endLine ∧ ∃ b, note.body = [b] ∧ b.line = note.startLine := by
  cases h with
  | marked h hrole => exact ⟨rfl, _, rfl, rfl⟩
  | closed h hbody => exact absurd hkind (BlockKind.noteKind_ne_marker _ keyword)
  | cutOff hbody => exact absurd hkind (BlockKind.noteKind_ne_marker _ keyword)

theorem Makes.block_body {part : Part} {note : Note} (h : part.Makes note)
    (hlines : Numbered part.lines) (hkind : note.kind.isBlock = true) :
    note.body ≠ [] ∧ (note.body.Pairwise fun a b => a.line < b.line) ∧
      ∀ b ∈ note.body, note.startLine < b.line ∧ b.line ≤ note.endLine := by
  cases h with
  | marked h hrole => cases hkind
  | @closed block line closer h hbody =>
      obtain ⟨hblock, -, hlt⟩ := List.pairwise_append.mp hlines
      refine ⟨hbody, pairwise_bodyLines (List.pairwise_cons.mp hblock).2, fun b hb => ?_⟩
      obtain ⟨tagged, hmem, hline⟩ := exists_mem_of_mem_bodyLines hb
      have hclose := hlt tagged (List.mem_cons_of_mem _ hmem) _ (List.mem_singleton_self _)
      exact ⟨Block.line_lt_of_mem_body hblock hb, Nat.le_of_lt (hline ▸ hclose)⟩
  | @cutOff block hbody =>
      exact ⟨hbody, pairwise_bodyLines (List.pairwise_cons.mp hlines).2, fun b hb =>
        ⟨Block.line_lt_of_mem_body hlines hb, Block.le_lastLine_of_mem_body hlines hb⟩⟩

theorem Makes.wellFormed {part : Part} {note : Note} {count : Nat} (h : part.Makes note)
    (hlines : Numbered part.lines)
    (hcount : ∀ tagged ∈ part.lines, 1 ≤ tagged.line ∧ tagged.line ≤ count) : note.WellFormed count := by
  obtain ⟨first, hfirst, hstart⟩ := h.exists_mem_startLine
  obtain ⟨last, hlast, hend⟩ := h.exists_mem_endLine
  have hle := h.start_le_end hlines
  exact {
    one_le_start := hstart ▸ (hcount first hfirst).1
    start_le_end := hle
    end_le_count := hend ▸ (hcount last hlast).2
    start_add_span := by rw [Note.lineSpan]; omega
    marker := fun keyword hkind => h.marker_body hkind
    block := fun hkind => h.block_body hlines hkind }

end Part

/-- What is found at lines of a part, and once at most in each, is in the order of the parts. -/
theorem pairwise_flatMap_parts {α : Type} {found : Part → List α} {first last : α → Nat} {parts : List Part}
    (hone : ∀ part, found part = [] ∨ ∃ a, found part = [a])
    (hfirst : ∀ part, ∀ a ∈ found part, ∃ tagged ∈ part.lines, tagged.line = first a)
    (hlast : ∀ part, ∀ a ∈ found part, ∃ tagged ∈ part.lines, tagged.line = last a)
    (hparts : parts.Pairwise fun part later => ∀ a ∈ part.lines, ∀ b ∈ later.lines, a.line < b.line) :
    (parts.flatMap found).Pairwise fun a b => last a < first b := by
  rw [List.pairwise_flatMap]
  constructor
  · intro part _
    rcases hone part with hnil | ⟨a, hsingle⟩
    · rw [hnil]
      exact .nil
    · rw [hsingle]
      exact List.pairwise_singleton _ _
  · refine hparts.imp fun {part later} hlt a ha b hb => ?_
    obtain ⟨tagged, hmem, hline⟩ := hlast part a ha
    obtain ⟨tagged', hmem', hline'⟩ := hfirst later b hb
    rw [← hline, ← hline']
    exact hlt tagged hmem tagged' hmem'

namespace Divides

variable {parts : List Part} {lines : List TaggedLine} {found : Findings}

/-- The parts cover ranges of lines that follow one another. -/
theorem pairwise_parts (h : Divides parts lines found)
    (hlines : Numbered lines) :
    (∀ part ∈ parts, Numbered part.lines) ∧
      parts.Pairwise fun part later => ∀ a ∈ part.lines, ∀ b ∈ later.lines, a.line < b.line := by
  rw [h.lines_eq] at hlines
  exact List.pairwise_flatMap.mp hlines

/-- A line belongs to one part only. -/
theorem eq_of_line_eq (h : Divides parts lines found) (hlines : Numbered lines) {part other : Part}
    (hpart : part ∈ parts) (hother : other ∈ parts) {a b : TaggedLine} (ha : a ∈ part.lines)
    (hb : b ∈ other.lines) (hline : a.line = b.line) : part = other := by
  have hsymm : Std.Symm fun part later : Part => ∀ a ∈ part.lines, ∀ b ∈ later.lines, a.line ≠ b.line :=
    ⟨fun _ _ hapart b hb a ha => (hapart a ha b hb).symm⟩
  have hapart : parts.Pairwise fun part later => ∀ a ∈ part.lines, ∀ b ∈ later.lines, a.line ≠ b.line :=
    (h.pairwise_parts hlines).2.imp fun hlt a ha b hb => Nat.ne_of_lt (hlt a ha b hb)
  by_contra hne
  exact hapart.forall hpart hother hne a ha b hb hline

theorem wellFormed {count : Nat} (h : Divides parts lines found)
    (hlines : Numbered lines)
    (hcount : ∀ tagged ∈ lines, 1 ≤ tagged.line ∧ tagged.line ≤ count) : found.WellFormed count := by
  obtain ⟨hwithin, hacross⟩ := h.pairwise_parts hlines
  have hpart : ∀ part ∈ parts, ∀ tagged ∈ part.lines, 1 ≤ tagged.line ∧ tagged.line ≤ count := by
    intro part hmem tagged htagged
    apply hcount
    rw [h.lines_eq]
    exact List.mem_flatMap.mpr ⟨part, hmem, htagged⟩
  constructor
  · intro note hnote
    rw [h.notes_eq] at hnote
    obtain ⟨part, hmem, hnote⟩ := List.mem_flatMap.mp hnote
    exact (Part.makes_of_mem_notes hnote).wellFormed (hwithin part hmem) (hpart part hmem)
  · rw [h.notes_eq]
    refine pairwise_flatMap_parts (fun part => ?_) (fun part note hnote => ?_) (fun part note hnote => ?_) hacross
    · exact part.notes_findings.imp_right fun ⟨note, heq, _⟩ => ⟨note, heq⟩
    · exact (Part.makes_of_mem_notes hnote).exists_mem_startLine
    · exact (Part.makes_of_mem_notes hnote).exists_mem_endLine
  · intro warning hwarning
    rw [h.warnings_eq] at hwarning
    obtain ⟨part, hmem, hwarning⟩ := List.mem_flatMap.mp hwarning
    obtain ⟨tagged, htagged, hline⟩ := (Part.warns_of_mem_warnings hwarning).exists_mem_line
    rw [← hline]
    exact hpart part hmem tagged htagged
  · rw [h.warnings_eq]
    have hline : ∀ part : Part, ∀ warning ∈ part.findings.warnings,
        ∃ tagged ∈ part.lines, tagged.line = warning.line :=
      fun part warning hwarning => (Part.warns_of_mem_warnings hwarning).exists_mem_line
    refine pairwise_flatMap_parts (fun part => ?_) hline hline hacross
    exact part.warnings_findings.imp_right fun ⟨warning, heq, _⟩ => ⟨warning, heq⟩

end Divides

theorem assemble_wellFormed (style : CommentStyle) (lines : List Text) :
    (assemble (style.tagLines lines)).WellFormed lines.length := by
  obtain ⟨parts, hparts⟩ := exists_divides (style.tagLines lines)
  exact hparts.wellFormed (style.numbered_tagLines lines) fun _ h => CommentStyle.line_of_mem_tagLines h

theorem Findings.WellFormed.anchored {found : Findings} {count : Nat} (h : found.WellFormed count)
    (lines : List TaggedLine) : (found.anchored lines).WellFormed count where
  notes := by
    intro note hnote
    obtain ⟨bare, hbare, rfl⟩ := List.mem_map.mp hnote
    have hbare := h.notes bare hbare
    exact ⟨hbare.one_le_start, hbare.start_le_end, hbare.end_le_count, hbare.start_add_span, hbare.marker,
      hbare.block⟩
  apart := List.pairwise_map.mpr h.apart
  warnings := h.warnings
  increasing := h.increasing

/-- What is found in a file is in order: ranges inside the file that do not touch, each body inside its
range, and at most one warning on a line. -/
theorem extractWith_wellFormed (source : Source) (style : CommentStyle) :
    (source.extractWith style).findings.WellFormed source.lines.length :=
  (assemble_wellFormed style source.lines).anchored _

end Marginalia
