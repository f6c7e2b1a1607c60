import Marginalia.Proofs.Indentation
import Marginalia.Proofs.Slice

/-! Two spellings of one comment. Texts can be written as line comments, or all together as one block
comment; what is found is the same, in the same lines, and only the columns tell the spellings apart. The
assembler copies columns and never looks at them, so a run on lines without columns gives what a run on the
lines gives, without columns. What remains is that both spellings are tagged alike: every line is a comment
with its own text, and no block comment is open after the last. -/

namespace Marginalia

def BodyLine.withoutColumn (b : BodyLine) : BodyLine := { b with column := 0 }

def Note.withoutColumns (n : Note) : Note := { n with body := n.body.map BodyLine.withoutColumn }

/-- What was found, with all its columns forgotten. -/
def Findings.withoutColumns (found : Findings) : Findings :=
  { found with notes := found.notes.map Note.withoutColumns }

def Tag.withoutColumn : Tag → Tag
  | .comment c => .comment ⟨c.text, 0, 0⟩
  | .code text => .code text
  | .blank => .blank

def TaggedLine.withoutColumn (t : TaggedLine) : TaggedLine := { t with tag := t.tag.withoutColumn }

def OpenBlock.withoutColumns (block : OpenBlock) : OpenBlock :=
  { block with body := block.body.map BodyLine.withoutColumn }

def BlockState.withoutColumns : BlockState → BlockState
  | .idle => .idle
  | .brace block depth => .brace block.withoutColumns depth
  | .collection block => .collection block.withoutColumns

namespace Findings

theorem withoutColumns_append (found later : Findings) :
    (found ++ later).withoutColumns = found.withoutColumns ++ later.withoutColumns := by
  show Findings.mk _ _ = Findings.mk _ _
  rw [notes_append, warnings_append, List.map_append]
  rfl

end Findings

namespace OpenBlock

theorem start_withoutColumns (line : Nat) : (start line).withoutColumns = start line := by
  simp [start, withoutColumns]

theorem push_withoutColumns (block : OpenBlock) (line : Nat) (c : Comment) :
    block.withoutColumns.push line ⟨c.text, 0, 0⟩ = (block.push line c).withoutColumns := by
  simp [withoutColumns, push, BodyLine.withoutColumn]

theorem toNote_withoutColumns (block : OpenBlock) (kind : NoteKind) (endLine : Nat) :
    (block.withoutColumns.toNote kind endLine).withoutColumns = (block.toNote kind endLine).withoutColumns := by
  simp [withoutColumns, toNote, Note.withoutColumns, BodyLine.withoutColumn, Function.comp_def]

theorem isEmpty_withoutColumns (block : OpenBlock) : block.withoutColumns.body.isEmpty = block.body.isEmpty := by
  simp [withoutColumns, Array.isEmpty]

theorem close_withoutColumns (block : OpenBlock) (kind : NoteKind) (endLine : Nat) :
    (block.withoutColumns.close kind endLine).withoutColumns = (block.close kind endLine).withoutColumns := by
  rw [close, close, isEmpty_withoutColumns]
  split
  · rfl
  · exact congrArg Findings.note (toNote_withoutColumns block kind endLine)

theorem cutOff_withoutColumns (block : OpenBlock) (kind : NoteKind) :
    (block.withoutColumns.cutOff kind).withoutColumns = (block.cutOff kind).withoutColumns := by
  rw [cutOff, cutOff, Findings.withoutColumns_append, Findings.withoutColumns_append, isEmpty_withoutColumns]
  congr 1
  split
  · rfl
  · exact congrArg Findings.note (toNote_withoutColumns block kind block.lastLine)

end OpenBlock

namespace BlockState

theorem finish_withoutColumns (state : BlockState) :
    state.withoutColumns.finish.withoutColumns = state.finish.withoutColumns := by
  cases state with
  | idle => rfl
  | brace block depth => exact block.cutOff_withoutColumns .brace
  | collection block => exact block.cutOff_withoutColumns .collection

/-- The next state and what was found are those of another step, up to columns. -/
def Follows (flat next : BlockState × Findings) : Prop :=
  flat.1 = next.1.withoutColumns ∧ flat.2.withoutColumns = next.2.withoutColumns

theorem stepIdle_withoutColumn (line : Nat) (c : Comment) :
    Follows (stepIdle line ⟨c.text, 0, 0⟩) (stepIdle line c) := by
  unfold stepIdle
  cases Role.ofText c.text with
  | marker keyword text offset => exact ⟨rfl, rfl⟩
  | braceOpen => exact ⟨congrArg (brace · 1) (OpenBlock.start_withoutColumns line).symm, rfl⟩
  | collectionOpen => exact ⟨congrArg collection (OpenBlock.start_withoutColumns line).symm, rfl⟩
  | braceClose => exact ⟨rfl, rfl⟩
  | collectionClose => exact ⟨rfl, rfl⟩
  | prose => exact ⟨rfl, rfl⟩

theorem stepBrace_withoutColumn (block : OpenBlock) (depth line : Nat) (c : Comment) :
    Follows (stepBrace block.withoutColumns depth line ⟨c.text, 0, 0⟩) (stepBrace block depth line c) := by
  unfold stepBrace
  rw [block.push_withoutColumns line c]
  cases Role.ofText c.text with
  | braceClose =>
      by_cases hdepth : depth = 1
      · simp only [hdepth, if_true]
        exact ⟨rfl, block.close_withoutColumns .brace line⟩
      · simp only [hdepth, if_false]
        exact ⟨rfl, rfl⟩
  | braceOpen => exact ⟨rfl, rfl⟩
  | prose => exact ⟨rfl, rfl⟩
  | marker keyword text offset => exact ⟨rfl, rfl⟩
  | collectionOpen => exact ⟨rfl, rfl⟩
  | collectionClose => exact ⟨rfl, rfl⟩

theorem stepCollection_withoutColumn (block : OpenBlock) (line : Nat) (c : Comment) :
    Follows (stepCollection block.withoutColumns line ⟨c.text, 0, 0⟩) (stepCollection block line c) := by
  unfold stepCollection
  rw [block.push_withoutColumns line c]
  cases Role.ofText c.text with
  | collectionClose => exact ⟨rfl, block.close_withoutColumns .collection line⟩
  | braceClose => exact ⟨rfl, rfl⟩
  | braceOpen => exact ⟨rfl, rfl⟩
  | prose => exact ⟨rfl, rfl⟩
  | marker keyword text offset => exact ⟨rfl, rfl⟩
  | collectionOpen => exact ⟨rfl, rfl⟩

theorem step_withoutColumn (state : BlockState) (t : TaggedLine) :
    Follows (state.withoutColumns.step t.withoutColumn) (state.step t) := by
  obtain ⟨line, tag⟩ := t
  cases tag with
  | blank => exact ⟨rfl, rfl⟩
  | code text => exact ⟨rfl, state.finish_withoutColumns⟩
  | comment c =>
      cases state with
      | idle => exact stepIdle_withoutColumn line c
      | brace block depth => exact stepBrace_withoutColumn block depth line c
      | collection block => exact stepCollection_withoutColumn block line c

theorem run_withoutColumn (state : BlockState) (lines : List TaggedLine) :
    (state.withoutColumns.run (lines.map TaggedLine.withoutColumn)).withoutColumns =
      (state.run lines).withoutColumns := by
  induction lines generalizing state with
  | nil => exact state.finish_withoutColumns
  | cons t rest ih =>
      obtain ⟨hnext, hfound⟩ := state.step_withoutColumn t
      rw [List.map_cons, run_cons, run_cons, Findings.withoutColumns_append, Findings.withoutColumns_append,
        hnext, hfound, ih]

end BlockState

theorem TaggedLine.anchor?_withoutColumn (t : TaggedLine) : t.withoutColumn.anchor? = t.anchor? := by
  obtain ⟨line, tag⟩ := t
  cases tag <;> rfl

theorem anchorIndex_withoutColumn (lines : List TaggedLine) :
    anchorIndex (lines.map TaggedLine.withoutColumn) = anchorIndex lines := by
  induction lines with
  | nil => rfl
  | cons t rest ih => rw [List.map_cons, anchorIndex, anchorIndex, ih, TaggedLine.anchor?_withoutColumn]

theorem Findings.withoutColumns_anchored (found : Findings) (lines : List TaggedLine) :
    (found.anchored lines).withoutColumns =
      found.withoutColumns.anchored (lines.map TaggedLine.withoutColumn) := by
  simp only [anchored, withoutColumns, anchorIndex_withoutColumn, List.map_map]
  rfl

/-- Lines that are tagged alike, up to columns, hold the same notes and warnings, up to columns. -/
theorem CommentStyle.extract_withoutColumns {style : CommentStyle} {lines lines' : List Text}
    (h : (style.tagLines lines).map TaggedLine.withoutColumn =
      (style.tagLines lines').map TaggedLine.withoutColumn) :
    (style.extract lines).withoutColumns = (style.extract lines').withoutColumns := by
  have hrun := BlockState.idle.run_withoutColumn
  rw [extract, extract, Findings.withoutColumns_anchored, Findings.withoutColumns_anchored, assemble, assemble,
    ← hrun, ← hrun (style.tagLines lines'), h]

namespace Text

theorem trimEnd_append {w : Text} (hw : w.isAllBlank = true) (s : Text) : trimEnd (s ++ w) = s.trimEnd := by
  have hreverse : isAllBlank w.reverse = true := by rw [isAllBlank, List.all_reverse]; exact hw
  have h := trimStart_append hreverse s.reverse
  rw [← List.reverse_append] at h
  exact congrArg List.reverse h

theorem IsTrimmed.trimStart_append {t : Text} (ht : t.IsTrimmed) {w : Text} (hw : w.isAllBlank = true) :
    Text.trimStart (t ++ w) = if t = [] then [] else t ++ w := by
  cases t with
  | nil =>
      have h := Text.trimStart_append hw []
      rwa [List.append_nil] at h
  | cons c t => exact trimStart_of_head ht.head

theorem IsTrimmed.trim_append {t : Text} (ht : t.IsTrimmed) {w : Text} (hw : w.isAllBlank = true) :
    Text.trim (t ++ w) = t := by
  rw [Text.trim, ht.trimStart_append hw]
  split
  · next hnil => rw [hnil]; rfl
  · rw [trimEnd_append hw, trimEnd_of_last ht.last]

theorem after?_append_eq_none {pattern t : Text} {c : Char} (hc : c ∉ pattern) (h : after? pattern t = none)
    (rest : Text) : after? pattern (t ++ c :: rest) = none := by
  induction pattern generalizing t with
  | nil => cases h
  | cons p pattern ih =>
      rw [List.mem_cons, not_or] at hc
      cases t with
      | nil => exact if_neg (Ne.symm hc.1)
      | cons d t =>
          rw [List.cons_append, after?]
          rw [after?] at h
          split
          · next heq =>
            rw [if_pos heq] at h
            exact ih hc.2 h
          · rfl

/-- A search goes on behind a character that the pattern does not have. -/
theorem cutFirst?_append_cons {pattern t : Text} {c : Char} (hc : c ∉ pattern) (h : t.contains pattern = false)
    (rest : Text) : cutFirst? pattern (t ++ c :: rest) =
      (cutFirst? pattern rest).map fun (before, after) => (t ++ c :: before, after) := by
  rw [contains, Option.isSome_eq_false_iff, Option.isNone_iff_eq_none] at h
  induction t with
  | nil =>
      have hafter : after? pattern [] = none := by
        cases pattern with
        | nil => cases h
        | cons p pattern => rfl
      have hhere : after? pattern (c :: rest) = none := after?_append_eq_none hc hafter rest
      rw [List.nil_append, cutFirst?, hhere]
      rfl
  | cons d t ih =>
      rw [cutFirst?] at h
      split at h
      · cases h
      · next hafter =>
        have hlater : cutFirst? pattern t = none := by simpa using h
        rw [List.cons_append, cutFirst?, ← List.cons_append, after?_append_eq_none hc hafter rest, ih hlater,
          Option.map_map]
        rfl

/-- The text begins with a star that stands alone. -/
def isStarred : Text → Bool
  | '*' :: rest => rest.head?.all isBlank
  | _ => false

end Text

theorem Comment.text_ofInterior {t : Text} (ht : t.IsTrimmed) (hstar : t.isStarred = false) {w : Text}
    (hw : w.isAllBlank = true) : (Comment.ofInterior (t ++ w)).text = t := by
  have htrim := ht.trim_append hw
  cases t with
  | nil => rw [ofInterior, ht.trimStart_append hw]; rfl
  | cons c t =>
      rw [ofInterior, ht.trimStart_append hw, if_neg (List.cons_ne_nil c t)]
      split
      · next after heq =>
        cases heq
        rw [if_neg]
        · exact htrim
        · intro hblank
          cases t with
          | nil => cases hstar
          | cons d t => cases hblank.symm.trans hstar
      · exact htrim

namespace Delimiters

theorem inside_of_not_contains {block : Delimiters} {s : Text} (h : s.contains block.closing = false) :
    block.inside s = (s, true) := by
  rw [Text.contains, Option.isSome_eq_false_iff, Option.isNone_iff_eq_none] at h
  rw [inside, h]

theorem inside_slashStar_closed {s : Text} (h : s.contains slashStar.closing = false) :
    slashStar.inside (s ++ " */") = (s ++ [' '], false) := by
  have hcut : Text.cutFirst? slashStar.closing (s ++ " */") = some (s ++ [' '], []) := by
    exact Text.cutFirst?_append_cons (by decide) h ['*', '/']
  rw [inside, hcut]
  rfl

end Delimiters

namespace CommentStyle

/-- The line is tagged as a comment with the given text and leaves a block comment open or not. -/
def Reads (style : CommentStyle) (isOpen : Bool) (raw text : Text) (stillOpen : Bool) : Prop :=
  (style.tag isOpen raw).1.withoutColumn = .comment ⟨text, 0, 0⟩ ∧ (style.tag isOpen raw).2 = stillOpen

theorem Reads.tagFrom {style : CommentStyle} {isOpen stillOpen : Bool} {raw text : Text}
    (h : style.Reads isOpen raw text stillOpen) (line : Nat) (rest : List Text) :
    (style.tagFrom isOpen line (raw :: rest)).map TaggedLine.withoutColumn =
      ⟨line, .comment ⟨text, 0, 0⟩⟩ ::
        (style.tagFrom stillOpen (line + 1) rest).map TaggedLine.withoutColumn := by
  rw [tagFrom_cons, List.map_cons, TaggedLine.withoutColumn, h.1, h.2]

theorem contains_blank_cons {t : Text} (hclose : t.contains Delimiters.slashStar.closing = false) :
    Text.contains (' ' :: t) Delimiters.slashStar.closing = false := by
  have hcut := Text.cutFirst?_append (p := '*') (by decide) (w := [' ']) (by decide) ['/'] t
  have hsome := congrArg Option.isSome hcut
  rw [Option.isSome_map] at hsome
  exact hsome.trans hclose

theorem reads_of_text_eq {style : CommentStyle} {isOpen stillOpen : Bool} {raw text : Text} {c : Comment}
    (htag : style.tag isOpen raw = (.comment c, stillOpen)) (htext : c.text = text) :
    style.Reads isOpen raw text stillOpen := by
  rw [Reads, htag, ← htext]
  exact ⟨rfl, rfl⟩

section Slashes

variable {t : Text} (ht : t.IsTrimmed)

include ht

theorem reads_leader : slashes.Reads false ("// " ++ t) t false := by
  have htag : slashes.tag false ("// " ++ t) = (.comment (.ofSegment 2 2 (' ' :: t)), false) := rfl
  exact reads_of_text_eq htag ht.trim_eq

variable (hclose : t.contains Delimiters.slashStar.closing = false)

include hclose

theorem reads_opening : slashes.Reads false ("/* " ++ t) t true := by
  have htag : slashes.tag false ("/* " ++ t) = (.comment (.ofSegment 2 2
      (Delimiters.slashStar.inside (' ' :: t)).1), (Delimiters.slashStar.inside (' ' :: t)).2) := rfl
  rw [Delimiters.inside_of_not_contains (contains_blank_cons hclose)] at htag
  exact reads_of_text_eq htag ht.trim_eq

theorem reads_whole : slashes.Reads false ("/* " ++ t ++ " */") t false := by
  have htag : slashes.tag false ("/* " ++ t ++ " */") = (.comment (.ofSegment 2 2
      (Delimiters.slashStar.inside (' ' :: t ++ " */")).1),
      (Delimiters.slashStar.inside (' ' :: t ++ " */")).2) := rfl
  rw [Delimiters.inside_slashStar_closed (contains_blank_cons hclose)] at htag
  exact reads_of_text_eq htag (ht.trim_append (by decide))

variable (hstar : t.isStarred = false)

include hstar

theorem reads_interior : slashes.Reads true t t true := by
  have htag : slashes.tag true t = (.comment (.ofInterior (Delimiters.slashStar.inside t).1),
      (Delimiters.slashStar.inside t).2) := rfl
  have htext := Comment.text_ofInterior ht hstar (w := []) rfl
  rw [Delimiters.inside_of_not_contains hclose] at htag
  rw [List.append_nil] at htext
  exact reads_of_text_eq htag htext

theorem reads_closing : slashes.Reads true (t ++ " */") t false := by
  have htag : slashes.tag true (t ++ " */") = (.comment (.ofInterior
      (Delimiters.slashStar.inside (t ++ " */")).1), (Delimiters.slashStar.inside (t ++ " */")).2) := rfl
  rw [Delimiters.inside_slashStar_closed hclose] at htag
  exact reads_of_text_eq htag (Comment.text_ofInterior ht hstar (by decide))

end Slashes
end CommentStyle

def asLineComments (texts : List Text) : List Text := texts.map ("// " ++ ·)

/-- Lines with the end of a block comment behind the last. -/
def closedLast : List Text → List Text
  | [] => []
  | [t] => [t ++ " */"]
  | t :: u :: rest => t :: closedLast (u :: rest)

/-- Texts as one block comment that begins before the first of them and ends behind the last. -/
def asBlockComment : List Text → List Text
  | [] => []
  | t :: rest => closedLast (("/* " ++ t) :: rest)

/-- A text that has the same meaning on a line of its own in either spelling. -/
structure Spellable (t : Text) : Prop where
  isTrimmed : t.IsTrimmed
  not_closes : t.contains Delimiters.slashStar.closing = false

theorem tagFrom_closedLast {t : Text} {rest : List Text} (hspell : ∀ u ∈ t :: rest, Spellable u)
    (hstar : ∀ u ∈ t :: rest, u.isStarred = false) (line : Nat) (after : List Text) :
    (CommentStyle.slashes.tagFrom true line (closedLast (t :: rest) ++ after)).map TaggedLine.withoutColumn =
      (CommentStyle.slashes.tagFrom false line (asLineComments (t :: rest) ++ after)).map
        TaggedLine.withoutColumn := by
  induction rest generalizing t line with
  | nil =>
      obtain ⟨htrimmed, hclose⟩ := hspell t List.mem_cons_self
      have hstar := hstar t List.mem_cons_self
      exact ((CommentStyle.reads_closing htrimmed hclose hstar).tagFrom line after).trans
        ((CommentStyle.reads_leader htrimmed).tagFrom line after).symm
  | cons u rest ih =>
      obtain ⟨htrimmed, hclose⟩ := hspell t List.mem_cons_self
      have htail := ih (fun v hv => hspell v (List.mem_cons_of_mem t hv))
        (fun v hv => hstar v (List.mem_cons_of_mem t hv)) (line + 1)
      have hinterior := CommentStyle.reads_interior htrimmed hclose (hstar t List.mem_cons_self)
      calc
        _ = _ :: (CommentStyle.slashes.tagFrom true (line + 1) (closedLast (u :: rest) ++ after)).map _ :=
          hinterior.tagFrom line _
        _ = _ :: (CommentStyle.slashes.tagFrom false (line + 1) (asLineComments (u :: rest) ++ after)).map _ := by
          rw [htail]
        _ = _ := ((CommentStyle.reads_leader htrimmed).tagFrom line _).symm

theorem tagLines_asBlockComment {texts : List Text} (hspell : ∀ t ∈ texts, Spellable t)
    (hstar : ∀ t ∈ texts.tail, t.isStarred = false) (after : List Text) :
    (CommentStyle.slashes.tagLines (asBlockComment texts ++ after)).map TaggedLine.withoutColumn =
      (CommentStyle.slashes.tagLines (asLineComments texts ++ after)).map TaggedLine.withoutColumn := by
  cases texts with
  | nil => rfl
  | cons t rest =>
      obtain ⟨htrimmed, hclose⟩ := hspell t List.mem_cons_self
      have hline := (CommentStyle.reads_leader htrimmed).tagFrom 1 (asLineComments rest ++ after)
      refine Eq.trans ?_ hline.symm
      cases rest with
      | nil => exact (CommentStyle.reads_whole htrimmed hclose).tagFrom 1 after
      | cons u rest =>
          rw [← tagFrom_closedLast (fun v hv => hspell v (List.mem_cons_of_mem t hv)) hstar]
          exact (CommentStyle.reads_opening htrimmed hclose).tagFrom 1 _

/-- Texts written as line comments and as one block comment hold the same notes, with the same lines, texts
and anchors, and the same warnings, in C and the languages that comment as C does. A text must not end the
block comment, and after the first line it must not begin with a star that would be taken for decoration. -/
theorem extract_asBlockComment :
    (∀ tag ∈ (["c", "go", "java", "javascript", "typescript"] : List Text),
      (LanguageTable.builtin.resolve tag).style = .slashes) ∧
    ∀ texts : List Text, (∀ t ∈ texts, t.IsTrimmed) → (∀ t ∈ texts, t.contains "*/" = false) →
      (∀ t ∈ texts.tail, t.isStarred = false) → ∀ after : List Text,
      (CommentStyle.slashes.extract (asBlockComment texts ++ after)).withoutColumns =
        (CommentStyle.slashes.extract (asLineComments texts ++ after)).withoutColumns := by
  refine ⟨by decide +kernel, fun texts htrimmed hclose hstar after => ?_⟩
  apply CommentStyle.extract_withoutColumns
  exact tagLines_asBlockComment (fun t ht => ⟨htrimmed t ht, hclose t ht⟩) hstar after

/-- Braces with an empty line and a line of stars between them, and code after the comment. -/
theorem extract_asBlockComment_starred :
    (∀ t ∈ (["TODO: \x7b", "", "*b*", "\x7d"] : List Text), t.IsTrimmed ∧ t.contains "*/" = false ∧
      t.isStarred = false) ∧
    (CommentStyle.slashes.extract ["/* TODO: \x7b", "", "*b*", "\x7d */", "x"]).withoutColumns =
      (CommentStyle.slashes.extract ["// TODO: \x7b", "// ", "// *b*", "// \x7d", "x"]).withoutColumns :=
  ⟨by decide, extract_asBlockComment.2 ["TODO: \x7b", "", "*b*", "\x7d"] (by decide) (by decide) (by decide)
    ["x"]⟩

end Marginalia
