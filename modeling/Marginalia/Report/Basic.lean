import Marginalia.Issue

/-! What a scan reports. -/

namespace Marginalia

structure ScannedFile where
  path : Text
  language : Text
  extraction : Extraction
  issues : List Issue
  deriving DecidableEq

namespace ScannedFile

def notes (file : ScannedFile) : List Note := file.extraction.findings.notes

def mapNotes (f : List Note → List Note) (file : ScannedFile) : ScannedFile :=
  let found := { file.extraction.findings with notes := f file.notes }
  { file with extraction := { file.extraction with findings := found } }

end ScannedFile

namespace Source

/-- What is found in a source file: its notes, and its warnings as issues, and one more issue when
its language has no comment style. -/
def scan (source : Source) (table : LanguageTable) : ScannedFile :=
  let extraction := source.extract table
  let warnings := extraction.findings.warnings.map (Issue.ofWarning · source)
  let unresolved := Issue.unresolvedLanguage source.path source.language
  { path := source.path
    language := source.language
    extraction := extraction
    issues := warnings ++ if extraction.styleFallback then [unresolved] else [] }

end Source

/-- Everything that one scan reports: its files, its issues in order, and how many files there
were. -/
structure Report where
  files : List ScannedFile
  issues : List Issue
  filesScanned : Nat
  showContext : Bool

namespace Report

def filesWithNotes (report : Report) : List ScannedFile :=
  report.files.filter fun file => !file.notes.isEmpty

def noteCount (report : Report) : Nat := (report.files.flatMap (·.notes)).length

/-- The number of issues that are reported with a severity. -/
def count (report : Report) (severity : Severity) : Nat :=
  report.issues.countP (·.reportSeverity == severity)

end Report
end Marginalia
