import Marginalia.Json.Print
import Marginalia.Report.Basic

/-! The report for programs. -/

namespace Marginalia.Report

open Json (Written)

/-- The kind of a note, as the members `type` and, for a marked line, `keyword`. -/
def kindJson : NoteKind → List (Text × Written)
  | .marker keyword => [("type", .string "marker"), ("keyword", .string keyword.spelling)]
  | .brace => [("type", .string "brace_block")]
  | .collection => [("type", .string "collection_block")]

def bodyJson (b : BodyLine) : Written :=
  .object [("line", .number b.line), ("column", .number b.column), ("text", .string b.text)]

def anchorJson (anchor : Anchor) : Written :=
  .object [("line", .number anchor.line), ("text", .string anchor.text)]

def noteJson (note : Note) : Written :=
  let rest : List (Text × Written) := [
    ("start_line", .number note.startLine),
    ("end_line", .number note.endLine),
    ("body", .array (note.body.map bodyJson)),
    ("anchor", .nullable anchorJson note.anchor)]
  .object (kindJson note.kind ++ rest)

def fileJson (file : ScannedFile) : Written :=
  .object [("path", .string file.path), ("language", .string file.language),
    ("annotations", .array (file.notes.map noteJson))]

def issueJson (issue : Issue) : Written :=
  .object [("severity", .string issue.reportSeverity.name), ("rule", .string issue.rule),
    ("file", .string issue.file), ("line", .nullable .number issue.line?),
    ("message", .string issue.message)]

/-- The report as JSON. Only files with notes are listed. -/
def toJson (report : Report) : Written :=
  .object [
    ("files", .array (report.filesWithNotes.map fileJson)),
    ("issues", .array (report.issues.map issueJson)),
    ("summary", .object [
      ("files_scanned", .number report.filesScanned),
      ("annotations", .number report.noteCount),
      ("errors", .number (report.count .error)),
      ("warnings", .number (report.count .warning))])]

def toJsonText (report : Report) : Text := report.toJson 0 ++ ['\n']

end Marginalia.Report
