import Mathlib.Data.List.Forall2
import Marginalia.Report.Text

/-! The gutter of a report. Its width is found in one pass over the line numbers that the report will show, and
each note and issue is then written with that width. What stands in gutters is told by the rows of the notes and
issues, apart from how they are written: the lines of a report that hold a sign of the gutter are these rows, in
order. The numbers of the rows are the ones the width was found from, and a number is never longer than a
greater one, so every number fits and every sign stands in the same column. -/

namespace Marginalia

theorem length_decimal_mono {m n : Nat} (h : m ≤ n) : (decimal m).length ≤ (decimal n).length := by
  have hpos : 0 < (decimal n).length := Nat.length_toDigits_pos
  have hn : n < 10 ^ (decimal n).length := (Nat.length_toDigits_le_iff (by decide) hpos).mp (Nat.le_refl _)
  exact (Nat.length_toDigits_le_iff (by decide) hpos).mpr (Nat.lt_of_le_of_lt h hn)

/-- What a line with a gutter shows: nothing, a line of source text with its number, or a remark. -/
inductive GutterRow where
  | empty
  | source (line : Nat) (text : Text)
  | remark (text : Text)

namespace GutterRow

def number? : GutterRow → Option Nat
  | .empty => none
  | .source line _ => some line
  | .remark _ => none

def sign : GutterRow → Char
  | .empty => '|'
  | .source _ _ => '|'
  | .remark _ => '='

def rest : GutterRow → Text
  | .empty => []
  | .source _ text => ' ' :: text
  | .remark text => ' ' :: text

def digits (row : GutterRow) : Text := row.number?.elim [] decimal

/-- The line shows the row with a gutter of a width: the first `width` characters are blanks and then the number,
if there is one, and after one more blank comes the sign. -/
def ShownBy (width : Nat) (row : GutterRow) (line : Text) : Prop :=
  ∃ blanks, blanks + row.digits.length = width ∧
    line = List.replicate blanks ' ' ++ row.digits ++ ' ' :: row.sign :: row.rest

def written (width : Nat) (row : GutterRow) : Text :=
  Text.padStart width row.digits ++ ' ' :: row.sign :: row.rest

theorem shownBy_written {width : Nat} {row : GutterRow} (h : row.digits.length ≤ width) :
    row.ShownBy width (row.written width) :=
  ⟨width - row.digits.length, Nat.sub_add_cancel h, rfl⟩

/-- A line of the source, cut if it is too wide, under an empty line. -/
def quoted (line : Nat) (text : Text) : List GutterRow :=
  [.empty, .source line (Display.truncate Report.contextWidth text)]

end GutterRow

/-- The rows of a note: the body of a block, and the code line if it is shown. -/
def Note.gutterRows (showContext : Bool) (note : Note) : List GutterRow :=
  (if note.kind.isBlock then note.body.map fun b => .remark b.text else []) ++
    (if showContext then note.anchor.toList.flatMap fun anchor => GutterRow.quoted anchor.line anchor.text else [])

/-- The rows of the line that an issue is about. -/
def Issue.quotedRows : Issue → List GutterRow
  | .block _ _ line sourceLine => GutterRow.quoted line sourceLine
  | .unresolvedLanguage _ _ => []
  | .readError _ _ => []

/-- The rows of an issue: the line it is about, its note and its hint. -/
def Issue.gutterRows (issue : Issue) : List GutterRow :=
  issue.quotedRows ++ (issue.details?.toList.map fun details => .remark ("note: " ++ details)) ++
    issue.hint?.toList.map fun hint => .remark ("hint: " ++ hint)

def Report.gutterRows (report : Report) : List GutterRow :=
  report.files.flatMap (fun file => file.notes.flatMap (Note.gutterRows report.showContext)) ++
    report.issues.flatMap Issue.gutterRows

/-! ### Lines with a sign -/

/-- The line has a sign of the gutter in it. -/
def hasSign (line : List Span) : Bool :=
  line.any fun span => span = .coloured .blue "|" || span = .coloured .blue "="

/-- The line as it is written without colours. -/
def plainText (line : List Span) : Text := line.flatMap (·.render false)

/-- The lines with a sign of the gutter, as they are written without colours. -/
def gutterTexts (lines : List (List Span)) : List Text := (lines.filter hasSign).map plainText

@[simp] theorem plainText_nil : plainText [] = [] := rfl

@[simp] theorem plainText_cons (span : Span) (line : List Span) :
    plainText (span :: line) = span.text ++ plainText line := rfl

theorem renderLines_false (lines : List (List Span)) :
    renderLines false lines = (lines.map plainText).flatMap (· ++ ['\n']) := by
  rw [List.flatMap_map]
  rfl

/-- Only blue spans are signs. -/
theorem hasSign_of_paint {line : List Span} (h : ∀ span ∈ line, span.paint ≠ .of .blue) : hasSign line = false := by
  refine List.any_eq_false.mpr fun span hspan => ?_
  have hpaint := h span hspan
  rw [Bool.or_eq_true, decide_eq_true_iff, decide_eq_true_iff]
  rintro (rfl | rfl) <;> exact hpaint rfl

theorem gutterTexts_append (lines later : List (List Span)) :
    gutterTexts (lines ++ later) = gutterTexts lines ++ gutterTexts later := by
  simp [gutterTexts]

theorem gutterTexts_flatMap {α : Type} (items : List α) (f : α → List (List Span)) :
    gutterTexts (items.flatMap f) = items.flatMap fun item => gutterTexts (f item) := by
  simp only [gutterTexts, List.filter_flatMap, List.map_flatMap]

theorem gutterTexts_of_hasSign {lines : List (List Span)} (h : ∀ line ∈ lines, hasSign line = true) :
    gutterTexts lines = lines.map plainText := by
  rw [gutterTexts, List.filter_eq_self.mpr h]

theorem gutterTexts_cons_of_not_hasSign {line : List Span} (h : hasSign line = false) (lines : List (List Span)) :
    gutterTexts (line :: lines) = gutterTexts lines := by
  rw [gutterTexts, List.filter_cons_of_neg (Bool.eq_false_iff.mp h), gutterTexts]

/-- The empty line after a note or an issue has no gutter. -/
theorem gutterTexts_separator : gutterTexts [[]] = [] := rfl

namespace Report

variable (gutter : Nat)

theorem hasSign_label (kind : NoteKind) {line : List Span} (h : ∀ span ∈ line, span.paint ≠ .of .blue) :
    hasSign (⟨kind.label, kind.paint⟩ :: line) = false := by
  have hlabel : kind.paint ≠ .of .blue := by
    rcases kind with ⟨⟨⟩⟩ | _ | _ <;> decide
  exact hasSign_of_paint (List.forall_mem_cons.mpr ⟨hlabel, h⟩)

theorem hasSign_placeLine (place : Text) : hasSign (placeLine gutter place) = false := by
  simp [hasSign, placeLine, Span.plain, Span.coloured, Paint.of]

theorem hasSign_remarkLine (remark : List Span) : hasSign (remarkLine gutter remark) = true := by
  simp [hasSign, remarkLine]

theorem plainText_remarkLine (remark : List Span) :
    plainText (remarkLine gutter remark) = (GutterRow.remark (plainText remark)).written gutter := by
  simp [remarkLine, GutterRow.written, GutterRow.digits, GutterRow.number?, GutterRow.sign, GutterRow.rest]

theorem gutterTexts_sourceLines (line : Nat) (text : Text) :
    gutterTexts (sourceLines gutter line text) = (GutterRow.quoted line text).map (·.written gutter) := by
  have hsigns : ∀ row ∈ sourceLines gutter line text, hasSign row = true := by
    simp [sourceLines, hasSign]
  rw [gutterTexts_of_hasSign hsigns]
  simp [sourceLines, GutterRow.quoted, GutterRow.written, GutterRow.digits, GutterRow.number?, GutterRow.sign,
    GutterRow.rest]

/-- Lines of remarks are rows of remarks. -/
theorem gutterTexts_remarkLines {α : Type} (items : List α) (f : α → List Span) :
    gutterTexts (items.map fun item => remarkLine gutter (f item)) =
      (items.map fun item => GutterRow.remark (plainText (f item))).map (·.written gutter) := by
  rw [gutterTexts_of_hasSign (List.forall_mem_map.mpr fun item _ => hasSign_remarkLine gutter (f item)),
    List.map_map, List.map_map]
  exact List.map_congr_left fun item _ => plainText_remarkLine gutter (f item)

/-- A note that shows no text beside its label shows all lines of its body. -/
theorem map_body_of_inlineText? {α : Type} {note : Note} (h : note.inlineText? = none) (f : BodyLine → α) :
    note.body.map f = if note.kind.isBlock then note.body.map f else [] := by
  rw [Note.inlineText?] at h
  split at h
  · next hblock => rw [if_pos hblock]
  · next hblock => rw [if_neg hblock, List.head?_eq_none_iff.mp (Option.map_eq_none_iff.mp h), List.map_nil]

theorem gutterTexts_noteLines (showContext : Bool) (path : Text) (note : Note) :
    gutterTexts (noteLines gutter showContext path note) =
      (note.gutterRows showContext).map (·.written gutter) := by
  rw [noteLines, gutterTexts_append, gutterTexts_append, gutterTexts_separator, List.append_nil, Note.gutterRows,
    List.map_append]
  congr 1
  · split
    · -- a marked line shows its text beside the label, and no body
      next text htext =>
      have hinline : ¬ note.kind.isBlock = true := by
        rw [Note.inlineText?, Option.ite_none_left_eq_some] at htext
        exact htext.1
      have hheading : hasSign [⟨note.kind.label, note.kind.paint⟩, .plain (": " ++ text)] = false :=
        hasSign_label note.kind (by simp [Span.plain, Paint.of])
      rw [if_neg hinline, List.map_nil, gutterTexts_cons_of_not_hasSign hheading,
        gutterTexts_cons_of_not_hasSign (hasSign_placeLine gutter _)]
      rfl
    · next hnone =>
      have hheading (size : Text) : hasSign [⟨note.kind.label, note.kind.paint⟩, .plain [' '],
          ⟨'(' :: size ++ [')'], { dimmed := true }⟩] = false :=
        hasSign_label note.kind (by simp [Span.plain, Paint.of])
      rw [← map_body_of_inlineText? hnone, gutterTexts_cons_of_not_hasSign (hheading _),
        gutterTexts_cons_of_not_hasSign (hasSign_placeLine gutter _), gutterTexts_remarkLines]
      simp
  · cases note.anchor with
    | none => cases showContext <;> rfl
    | some anchor =>
        cases showContext with
        | false => rfl
        | true => exact (gutterTexts_sourceLines gutter anchor.line anchor.text).trans (by simp)

theorem gutterTexts_issueLines (issue : Issue) :
    gutterTexts (issueLines gutter issue) = issue.gutterRows.map (·.written gutter) := by
  have hseverity : (severitySpan issue.reportSeverity).paint ≠ { colour := some .blue } := by
    cases issue.reportSeverity <;> decide
  have hheading : hasSign [severitySpan issue.reportSeverity, .plain (": " ++ issue.message ++ "  "),
      ⟨issue.rule, { dimmed := true, colour := some .cyan }⟩] = false := by
    refine hasSign_of_paint ?_
    simp [hseverity, Span.plain, Paint.of]
  simp only [issueLines, Issue.gutterRows, gutterTexts_append, List.cons_append, List.map_append,
    gutterTexts_separator, List.append_nil, gutterTexts_cons_of_not_hasSign hheading, gutterTexts_remarkLines]
  congr 2
  · cases issue with
    | block kind file line sourceLine =>
        exact (gutterTexts_cons_of_not_hasSign (hasSign_placeLine gutter _) _).trans
          (gutterTexts_sourceLines gutter line sourceLine)
    | unresolvedLanguage file language => exact gutterTexts_cons_of_not_hasSign (hasSign_placeLine gutter _) []
    | readError file error => exact gutterTexts_cons_of_not_hasSign (hasSign_placeLine gutter _) []
  · simp
  · simp

theorem gutterTexts_summaryLines (report : Report) : gutterTexts report.summaryLines = [] := by
  rw [summaryLines, gutterTexts_cons_of_not_hasSign]
  · split
    · rfl
    · refine gutterTexts_cons_of_not_hasSign (hasSign_of_paint ?_) []
      simp [failureMark, Span.plain, Span.coloured, Paint.of]
  · split <;>
    · refine hasSign_of_paint ?_
      simp [successMark, Span.plain, Span.coloured, Paint.of]

theorem gutterTexts_textLines (report : Report) :
    gutterTexts report.textLines = report.gutterRows.map (·.written report.gutterWidth) := by
  simp only [textLines, gutterTexts_append, gutterTexts_flatMap, gutterTexts_noteLines, gutterTexts_issueLines,
    gutterTexts_summaryLines, List.append_nil, gutterRows, List.map_append, List.map_flatMap]

/-! ### The numbers in the gutter -/

theorem filterMap_number?_note (showContext : Bool) (note : Note) :
    (note.gutterRows showContext).filterMap GutterRow.number? =
      if showContext then (note.anchor.map Anchor.line).toList else [] := by
  have hbody : (if note.kind.isBlock then note.body.map fun b => GutterRow.remark b.text else []).filterMap
      GutterRow.number? = [] := by
    split
    · simp [GutterRow.number?]
    · rfl
  rw [Note.gutterRows, List.filterMap_append, hbody, List.nil_append]
  cases showContext with
  | false => rfl
  | true => cases note.anchor <;> rfl

theorem filterMap_number?_issue (issue : Issue) :
    issue.gutterRows.filterMap GutterRow.number? = issue.line?.toList := by
  have hremarks (texts : List Text) (lead : Text) :
      (texts.map fun text => GutterRow.remark (lead ++ text)).filterMap GutterRow.number? = [] := by
    simp [GutterRow.number?]
  rw [Issue.gutterRows, List.filterMap_append, List.filterMap_append, hremarks, hremarks, List.append_nil,
    List.append_nil]
  cases issue <;> rfl

/-- The numbers in the gutter are those that its width is found from. -/
theorem filterMap_number?_gutterRows (report : Report) :
    report.gutterRows.filterMap GutterRow.number? = report.gutterLines := by
  simp only [gutterRows, gutterLines, List.filterMap_append, List.filterMap_flatMap, filterMap_number?_note,
    filterMap_number?_issue, List.filterMap_eq_flatMap_toList Issue.line?]
  congr 1
  cases report.showContext with
  | false => simp
  | true => simp [List.filterMap_eq_flatMap_toList]

theorem length_decimal_le_gutterWidth {report : Report} {n : Nat} (h : n ∈ report.gutterLines) :
    (decimal n).length ≤ report.gutterWidth := by
  obtain ⟨largest, hlargest⟩ := Option.isSome_iff_exists.mp (List.isSome_max?_of_mem h)
  have hle : n ≤ largest := (List.max?_eq_some_iff.mp hlargest).2 n h
  have hdigits := length_decimal_mono hle
  rw [gutterWidth, hlargest, Option.map_some, Option.getD_some]
  omega

theorem length_digits_le {report : Report} {row : GutterRow} (h : row ∈ report.gutterRows) :
    row.digits.length ≤ report.gutterWidth := by
  rw [GutterRow.digits]
  cases hnumber : row.number? with
  | none => exact Nat.zero_le _
  | some n =>
      have hmem : n ∈ report.gutterLines := by
        rw [← filterMap_number?_gutterRows]
        exact List.mem_filterMap.mpr ⟨row, h, hnumber⟩
      exact length_decimal_le_gutterWidth hmem

/-- **The gutter is aligned and wide enough.** A report without colours is its lines, each with a line break
behind it. The lines with a sign of the gutter are, in order, the rows of its notes and issues: remarks, the empty
lines and the numbered lines under them. The numbers in these rows are those that the width is found from, none
has more digits than the gutter has columns, and each line begins with a gutter of that width, blank or with the
number at its right, then one blank and the sign. -/
theorem gutterRows_shownBy (report : Report) :
    report.toText false = (report.textLines.map plainText).flatMap (· ++ ['\n']) ∧
    report.gutterRows.filterMap GutterRow.number? = report.gutterLines ∧
    (∀ n ∈ report.gutterLines, (decimal n).length ≤ report.gutterWidth) ∧
    List.Forall₂ (GutterRow.ShownBy report.gutterWidth) report.gutterRows (gutterTexts report.textLines) := by
  refine ⟨renderLines_false _, report.filterMap_number?_gutterRows, fun n => length_decimal_le_gutterWidth, ?_⟩
  rw [gutterTexts_textLines, List.forall₂_map_right_iff, List.forall₂_same]
  exact fun row hrow => GutterRow.shownBy_written (length_digits_le hrow)

end Report

end Marginalia
