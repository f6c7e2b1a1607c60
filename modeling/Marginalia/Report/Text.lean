import Marginalia.Display.Truncate
import Marginalia.Report.Basic
import Marginalia.Report.Paint

/-! The report for readers. Notes and issues are shown one after another, each with its place in the
source and, in a gutter for line numbers, lines of source text. All gutters have the same width. -/

namespace Marginalia

/-- The form of a noun that goes with a number. -/
def pluralize (count : Nat) (singular plural : Text) : Text :=
  if count = 1 then singular else plural

def decimal (n : Nat) : Text := Nat.toDigits 10 n

/-- A number and the noun that it counts. -/
def counted (count : Nat) (singular plural : Text) : Text :=
  decimal count ++ ' ' :: pluralize count singular plural

namespace NoteKind

def paint : NoteKind → Paint
  | .marker .todo => { bold := true, colour := some .cyan }
  | .marker .fixme => { bold := true, colour := some .yellow }
  | .marker .xxx => { bold := true, colour := some .red }
  | .brace => { bold := true, colour := some .magenta }
  | .collection => { bold := true, colour := some .magenta }

end NoteKind

namespace Report

/-- The most columns that a line of source text takes. -/
def contextWidth : Nat := 100

def successMark : Span := .coloured .green "✓"

def failureMark : Span := .coloured .red "✘"

/-- The line that gives a place, under the gutter. -/
def placeLine (gutter : Nat) (place : Text) : List Span :=
  [.plain (Text.padStart gutter []), .coloured .blue "-->", .plain (' ' :: place)]

/-- A line of remarks, after the gutter. -/
def remarkLine (gutter : Nat) (remark : List Span) : List Span :=
  .plain (Text.padStart gutter [] ++ [' ']) :: .coloured .blue "=" :: .plain [' '] :: remark

/-- A line of source text with its number in the gutter, under an empty line. -/
def sourceLines (gutter line : Nat) (text : Text) : List (List Span) := [
  [.plain (Text.padStart gutter [] ++ [' ']), .coloured .blue "|"],
  [.coloured .blue (Text.padStart gutter (decimal line)), .plain [' '], .coloured .blue "|",
    .plain (' ' :: Display.truncate contextWidth text)]]

/-- A note: its label and text, its place, the body of a block, and the code it is about. -/
def noteLines (gutter : Nat) (showContext : Bool) (path : Text) (note : Note) :
    List (List Span) :=
  let label : Span := ⟨note.kind.label, note.kind.paint⟩
  let heading : List (List Span) :=
    match note.inlineText? with
    | some text => [
        [label, .plain (": " ++ text)],
        placeLine gutter (path ++ ':' :: decimal note.startLine)]
    | none =>
      let size := counted note.body.length "line" "lines"
      [label, .plain [' '], ⟨'(' :: size ++ [')'], { dimmed := true }⟩] ::
        placeLine gutter
          (path ++ ':' :: decimal note.startLine ++ '-' :: decimal note.endLine) ::
        note.body.map fun b => remarkLine gutter [.plain b.text]
  let context : List (List Span) :=
    match note.anchor with
    | some anchor => if showContext then sourceLines gutter anchor.line anchor.text else []
    | none => []
  heading ++ context ++ [[]]

def severitySpan : Severity → Span
  | .error => ⟨Severity.error.name, { bold := true, colour := some .red }⟩
  | .warning => ⟨Severity.warning.name, { bold := true, colour := some .yellow }⟩

/-- An issue: what is wrong, where, and what to do about it. -/
def issueLines (gutter : Nat) (issue : Issue) : List (List Span) :=
  let heading : List Span := [severitySpan issue.reportSeverity, .plain (": " ++ issue.message ++ "  "),
    ⟨issue.rule, { dimmed := true, colour := some .cyan }⟩]
  let place : List (List Span) :=
    match issue with
    | .block _ file line sourceLine =>
      placeLine gutter (file ++ ':' :: decimal line) :: sourceLines gutter line sourceLine
    | issue => [placeLine gutter issue.file]
  let note := issue.details?.toList.map fun details =>
    remarkLine gutter [⟨"note:", { bold := true }⟩, .plain (' ' :: details)]
  let hint := issue.hint?.toList.map fun hint =>
    remarkLine gutter [⟨"hint:", { bold := true, colour := some .cyan }⟩, .plain (' ' :: hint)]
  heading :: place ++ note ++ hint ++ [[]]

/-- How much was found, and how many problems there were. -/
def summaryLines (report : Report) : List (List Span) :=
  let scanned := counted report.filesScanned "file" "files" ++ " scanned"
  let found : List Span :=
    if report.noteCount = 0 then
      [successMark, .plain [' '], .coloured .green ("No annotations found (" ++ scanned ++ ")")]
    else
      [successMark, .plain (" Found " ++ counted report.noteCount "annotation" "annotations" ++
        " in " ++ counted report.filesWithNotes.length "file" "files" ++ " (" ++ scanned ++ ")")]
  let errors := report.count .error
  let warnings := report.count .warning
  let problems : List Span := [failureMark,
    .plain (' ' :: counted (errors + warnings) "problem" "problems" ++
      " (" ++ decimal errors ++ [' ']),
    .coloured .red (pluralize errors "error" "errors"),
    .plain (", " ++ decimal warnings ++ [' ']),
    .coloured .yellow (pluralize warnings "warning" "warnings"),
    .plain [')']]
  found :: if errors + warnings = 0 then [] else [problems]

/-- The line numbers that a report shows in gutters. -/
def gutterLines (report : Report) : List Nat :=
  let anchors := (report.files.flatMap (·.notes)).filterMap fun note => note.anchor.map Anchor.line
  (if report.showContext then anchors else []) ++ report.issues.filterMap Issue.line?

/-- The width of the gutter: the digits of the largest line number in it, and at least two. -/
def gutterWidth (report : Report) : Nat :=
  max 2 ((report.gutterLines.max?.map fun line => (decimal line).length).getD 1)

def textLines (report : Report) : List (List Span) :=
  let gutter := report.gutterWidth
  let notes := report.files.flatMap fun file =>
    file.notes.flatMap (noteLines gutter report.showContext file.path)
  notes ++ report.issues.flatMap (issueLines gutter) ++ report.summaryLines

def toText (report : Report) (inColour : Bool) : Text := renderLines inColour report.textLines

end Report
end Marginalia
